import VolumeStore.Proofs.Client.Linked
import VolumeStore.Proofs.Session.Transfers

/-!
# Reading through a client

A client reads a range in pieces, each with a request of its own, until a piece is shorter than what
was asked for. What the pieces come to is the range, as far as the file has it.
-/

namespace VolumeStore

open Client

variable {o o' : Online ServedStore} {line : Nat} {s : Session} {fd offset : UInt64}
  {id : Host.FileId} {flags : OpenFlags}

/-! ## Ranges in pieces -/

theorem take_of_short {bytes : List UInt8} {want len : Nat} (hle : want ≤ len)
    (hshort : (bytes.take want).length < want) : bytes.take want = bytes.take len := by
  have hend : bytes.length ≤ want := by
    rw [List.length_take] at hshort
    omega
  rw [List.take_of_length_le hend, List.take_of_length_le (hend.trans hle)]

theorem take_append_take_drop {bytes : List UInt8} {offset want len : Nat} (hle : want ≤ len) :
    (bytes.drop offset).take want ++ (bytes.drop (offset + want)).take (len - want) =
      (bytes.drop offset).take len := by
  rw [← List.drop_drop, ← List.take_add, Nat.add_sub_cancel' hle]

/-- The lines that ask for a range of a file of `size` bytes fit: the first one, and every one that
follows a whole piece. -/
def StoreSettings.ReadLinesFit (settings : StoreSettings) (fd offset : UInt64)
    (limit len size : Nat) : Prop :=
  ∀ k, k * limit < len → k = 0 ∨ offset.toNat + k * limit ≤ size →
    Text.byteLength (Command.read fd (offset + UInt64.ofNat (k * limit))
      (UInt64.ofNat (min (len - k * limit) limit))).toLine.toList ≤
        settings.maxCommandLength.toNat

namespace StoreSettings.ReadLinesFit

variable {settings : StoreSettings} {limit len size : Nat}

theorem first (h : settings.ReadLinesFit fd offset limit len size) (hlen : 0 < len) :
    Text.byteLength (Command.read fd offset (UInt64.ofNat (min len limit))).toLine.toList ≤
      settings.maxCommandLength.toNat := by
  have hfirst := h 0 (by omega) (.inl rfl)
  rwa [Nat.zero_mul, Nat.sub_zero, show UInt64.ofNat 0 = 0 from rfl, UInt64.add_zero] at hfirst

theorem rest (h : settings.ReadLinesFit fd offset limit len size)
    (hend : offset.toNat + limit ≤ size) (hoffset : (offset + UInt64.ofNat limit).toNat =
      offset.toNat + limit) :
    settings.ReadLinesFit fd (offset + UInt64.ofNat limit) limit (len - limit) size := by
  intro k hk hsize
  have hnext : (k + 1) * limit = limit + k * limit := by rw [Nat.succ_mul, Nat.add_comm]
  have hline := h (k + 1) (by omega) (.inr ?_)
  · rwa [hnext, UInt64.ofNat_add, ← UInt64.add_assoc, ← Nat.sub_sub] at hline
  · rw [hnext]
    obtain rfl | hsize := hsize
    · omega
    · omega

end StoreSettings.ReadLinesFit

namespace Online.Steady

theorem of_exchange_read (h : o.Steady line s) (hfile : s.LeadsTo fd id flags) {len : UInt64}
    {response : Response}
    (hok : exchange ServedStore.network { command := .read fd offset len } o = (.ok response, o')) :
    ∃ s', o'.Steady line s' ∧ s'.LeadsTo fd id flags ∧
      response.data = ((o.bytes id).drop offset.toNat).take len.toNat ∧
      o'.network.hub.store.tree = o.network.hub.store.tree ∧
      o'.network.hub.store.settings = o.network.hub.store.settings := by
  have hproper : ClientRequest.Proper { command := .read fd offset len } :=
    ClientRequest.proper_of_numbers rfl rfl
  obtain ⟨-, hunrefused⟩ := h.of_exchange_eq_ok hproper (congrArg Prod.fst hok)
  obtain ⟨s', hread, hfile', hmounted, -⟩ :=
    Session.read_eq (s := s.clearRenameSource) hfile hunrefused
  obtain ⟨rfl, hsteady, hcarried⟩ := h.after_exchange hproper hok hread
    (Response.read_bytes fd offset (List.length_take_le _ _)) rfl rfl (hmounted.trans h.mounted)
  exact ⟨s', hsteady, hfile', rfl, hcarried.network.tree, hcarried.network.settings⟩

theorem exists_exchange_read (h : o.Steady line s) (hfile : s.LeadsTo fd id flags)
    (hreadable : flags.read = true) {len : UInt64}
    (hline : Text.byteLength (Command.read fd offset len).toLine.toList ≤
      o.network.hub.store.settings.maxCommandLength.toNat)
    (hlen : len ≤ o.network.hub.store.settings.maxPayload)
    (hend : offset.toNat + len.toNat < Host.sizeLimit) :
    ∃ response o', exchange ServedStore.network { command := .read fd offset len } o =
      (.ok response, o') := by
  have hunrefused : ∀ error, (s.clearRenameSource.read o.network.hub.store.settings
      o.network.hub.store.tree fd offset len).outcome ≠ .failed error :=
    Session.read_ne_failed (s := s.clearRenameSource) h.files hfile hreadable hlen hend
  obtain ⟨s', hread, -⟩ := Session.read_eq (s := s.clearRenameSource) hfile hunrefused
  obtain ⟨o', hexchange, -⟩ := h.exchange_eq (ClientRequest.proper_of_numbers rfl rfl)
    ⟨hline, Nat.zero_le _⟩ hread (Response.read_bytes fd offset (List.length_take_le _ _))
    rfl rfl
  exact ⟨_, o', hexchange⟩

theorem length_bytes_lt (h : o.Steady line s) (id : Host.FileId) :
    (o.bytes id).length < Host.sizeLimit := by
  unfold bytes
  rw [Host.Content.length_toList]
  exact h.stored.size_lt id

theorem next_offset (h : o.Steady line s) {want : Nat} (hpos : 0 < want) {data : List UInt8}
    (hdata : data = ((o.bytes id).drop offset.toNat).take want) (hfull : ¬ data.length < want) :
    data.length = want ∧ (offset + UInt64.ofNat want).toNat = offset.toNat + want ∧
      offset.toNat + want ≤ (o.bytes id).length := by
  have hlimit := h.length_bytes_lt id
  have hlt : Host.sizeLimit < UInt64.size := by decide
  have hlength : data.length = min want ((o.bytes id).length - offset.toNat) := by
    rw [hdata, List.length_take, List.length_drop]
  refine ⟨by omega, ?_, by omega⟩
  rw [UInt64.toNat_add, UInt64.toNat_ofNat_of_lt' (by omega), Nat.mod_eq_of_lt]
  show offset.toNat + want < UInt64.size
  omega

theorem of_readChunks (h : o.Steady line s) {file : ClientFile} (hfile : s.LeadsTo file.fd id flags)
    {limit requests len : Nat} (hlimit : 0 < limit) (hsize : limit < UInt64.size)
    (hlen : len ≤ requests) {data : List UInt8}
    (hok : readChunks ServedStore.network file limit requests offset len o = (.ok data, o')) :
    data = ((o.bytes id).drop offset.toNat).take len ∧
      o'.network.hub.store.tree = o.network.hub.store.tree := by
  -- By the requests that are left: each reads at least one byte, or is the last.
  induction requests generalizing o s offset len data with
  | zero =>
    cases hok
    rw [Nat.le_zero.1 hlen, List.take_zero]
    exact ⟨rfl, rfl⟩
  | succ requests ih =>
    unfold readChunks at hok
    split at hok
    next hnone =>
      cases hok
      rw [hnone, List.take_zero]
      exact ⟨rfl, rfl⟩
    next hsome =>
      dsimp only at hok
      split at hok
      · cases hok
      next response o₁ hexchange =>
        obtain ⟨s₁, hsteady, hfile₁, hdata, htree, -⟩ := h.of_exchange_read hfile hexchange
        have hwant : (UInt64.ofNat (min len limit)).toNat = min len limit :=
          UInt64.toNat_ofNat_of_lt' (by omega)
        rw [hwant] at hdata
        split at hok
        next hshort =>
          cases hok
          rw [hdata] at hshort ⊢
          exact ⟨take_of_short (Nat.min_le_left _ _) hshort, htree⟩
        next hfull =>
          obtain ⟨hlength, hoffset, -⟩ := h.next_offset (by omega) hdata hfull
          rw [hlength] at hok
          split at hok
          · cases hok
          next rest o₂ hrest =>
            cases hok
            obtain ⟨hdata', htree'⟩ := ih hsteady hfile₁ (by omega) hrest
            have hbytes : o₁.bytes id = o.bytes id := by
              unfold bytes
              rw [htree]
            rw [hbytes, hoffset] at hdata'
            rw [hdata', hdata, take_append_take_drop (Nat.min_le_left _ _)]
            exact ⟨rfl, htree'.trans htree⟩

theorem exists_readChunks (h : o.Steady line s) {file : ClientFile}
    (hfile : s.LeadsTo file.fd id flags) (hreadable : flags.read = true)
    {limit requests len : Nat} (hlimit : 0 < limit)
    (hmax : limit ≤ o.network.hub.store.settings.maxPayload.toNat) (hlen : len ≤ requests)
    (hend : offset.toNat + len < Host.sizeLimit)
    (hlines : o.network.hub.store.settings.ReadLinesFit file.fd offset limit len
      (o.bytes id).length) :
    ∃ data o', readChunks ServedStore.network file limit requests offset len o =
      (.ok data, o') := by
  have hsize : limit < UInt64.size := Nat.lt_of_le_of_lt hmax (UInt64.toNat_lt_size _)
  -- The induction is on the number of requests. What a full answer leaves of the range needs one
  -- request less.
  induction requests generalizing o s offset len with
  | zero => exact ⟨[], o, rfl⟩
  | succ requests ih =>
    unfold readChunks
    split
    · exact ⟨_, _, rfl⟩
    next hsome =>
      have hwant : (UInt64.ofNat (min len limit)).toNat = min len limit :=
        UInt64.toNat_ofNat_of_lt' (by omega)
      obtain ⟨response, o₁, hexchange⟩ := h.exists_exchange_read hfile hreadable
        (hlines.first (by omega)) (UInt64.le_iff_toNat_le.2 (by omega)) (by omega)
      obtain ⟨s₁, hsteady, hfile₁, hdata, htree, hsettings⟩ := h.of_exchange_read hfile hexchange
      rw [hwant] at hdata
      dsimp only
      rw [hexchange]
      dsimp only
      split
      · exact ⟨_, _, rfl⟩
      next hfull =>
        obtain ⟨hlength, hoffset, hinside⟩ := h.next_offset (by omega) hdata hfull
        have hbytes : o₁.bytes id = o.bytes id := by
          unfold bytes
          rw [htree]
        -- The requests for the rest are some of those for the whole, so their lines fit as well.
        have hrest : o₁.network.hub.store.settings.ReadLinesFit file.fd
            (offset + UInt64.ofNat (min len limit)) limit (len - min len limit)
            (o₁.bytes id).length := by
          rw [hsettings, hbytes]
          obtain hlt | hle := Nat.lt_or_ge limit len
          · rw [Nat.min_eq_right hlt.le] at hinside hoffset ⊢
            exact hlines.rest hinside hoffset
          · rw [Nat.min_eq_left hle, Nat.sub_self]
            exact fun k hk => absurd hk (Nat.not_lt_zero _)
        obtain ⟨data, o₂, hread⟩ := ih hsteady hfile₁ (hsettings ▸ hmax)
          (by omega : len - min len limit ≤ requests) (by omega) hrest
        rw [hlength, hread]
        exact ⟨_, _, rfl⟩

end Online.Steady

/-- A read that a client gets through gives exactly the bytes of the range that the file has, and
changes nothing on the host. It does get through when the file was opened for reading, the range
ends below the limit of a file, the store takes payloads of the size of a piece, and the lines of
the requests fit. -/
theorem Client.slice_of_readFrom (hrun : o.network.hub.Running) (h : o.Linked line s)
    {file : ClientFile} {opened : OpenFile} (hfile : s.file file.fd = .ok opened)
    (hmax : 1 ≤ o.client.settings.maxPayload) (offset len : UInt64) :
    (∀ data, (readFrom ServedStore.network file offset len o).1 = .ok data →
      data = ((o.bytes opened.handle.file).drop offset.toNat).take len.toNat ∧
      (readFrom ServedStore.network file offset len o).2.network.hub.store.tree =
        o.network.hub.store.tree) ∧
    (opened.flags.read = true → offset.toNat + len.toNat < Host.sizeLimit →
      o.client.settings.maxPayload ≤ o.network.hub.store.settings.maxPayload →
      o.network.hub.store.settings.ReadLinesFit file.fd offset
        o.client.settings.maxPayload.toNat len.toNat (o.bytes opened.handle.file).length →
      (readFrom ServedStore.network file offset len o).1 =
        .ok (((o.bytes opened.handle.file).drop offset.toNat).take len.toNat)) := by
  have hsteady := h.steady hrun
  have hleads : s.LeadsTo file.fd opened.handle.file opened.flags := ⟨opened, hfile, rfl, rfl⟩
  have hlimit : 0 < o.client.settings.maxPayload.toNat := UInt64.le_iff_toNat_le.1 hmax
  -- What succeeds is the slice, with or without the room and the right to read.
  have hslice : ∀ data o', readFrom ServedStore.network file offset len o = (.ok data, o') →
      data = ((o.bytes opened.handle.file).drop offset.toNat).take len.toNat ∧
        o'.network.hub.store.tree = o.network.hub.store.tree :=
    fun data o' hok => hsteady.of_readChunks hleads hlimit (UInt64.toNat_lt_size _) le_rfl hok
  constructor
  · exact fun data hok => hslice data _ (Prod.ext hok rfl)
  · intro hreadable hend hsize hlines
    obtain ⟨data, o', hread⟩ := hsteady.exists_readChunks hleads hreadable hlimit
      (UInt64.le_iff_toNat_le.1 hsize) le_rfl hend hlines
    rw [(hslice data o' hread).1] at hread
    exact congrArg Prod.fst hread

theorem Client.slice_of_readFrom_pastEnd :
    let o := ServedStore.fileClient
    let file : ClientFile := ⟨1, "/f", ServedStore.openedFile.flags⟩
    o.network.hub.Running ∧ o.Linked 0 ServedStore.fileSession ∧
      ServedStore.fileSession.file 1 = .ok ServedStore.openedFile ∧
      (readFrom ServedStore.network file 1 9 o).1 = .ok [2, 3, 4, 5] := by
  intro o file
  have hrun : o.network.hub.Running :=
    ServedStore.running_meeting ServedStore.stored_servedVolume 1 _
  have hfile : ServedStore.fileSession.file file.fd = .ok ServedStore.openedFile := rfl
  have hbytes : o.bytes ServedStore.openedFile.handle.file = [1, 2, 3, 4, 5] := by decide +kernel
  have hlimit : o.client.settings.maxPayload.toNat = 2 := rfl
  have hlines : o.network.hub.store.settings.ReadLinesFit 1 1 o.client.settings.maxPayload.toNat
      (9 : UInt64).toNat (o.bytes ServedStore.openedFile.handle.file).length := by
    rw [hbytes, hlimit]
    intro k hk hsize
    have hbelow : k = 0 ∨ 1 + k * 2 ≤ 5 := hsize
    obtain rfl | rfl | rfl : k = 0 ∨ k = 1 ∨ k = 2 := by omega
    all_goals decide +kernel
  have hslice := (slice_of_readFrom hrun ServedStore.linked_fileClient hfile
    (by decide) 1 9).2 rfl (by decide +kernel) (by decide +kernel) hlines
  rw [hbytes] at hslice
  exact ⟨hrun, ServedStore.linked_fileClient, hfile, hslice⟩

end VolumeStore
