import Mathlib.Algebra.BigOperators.Group.Finset.Piecewise
import Mathlib.Data.Fintype.Basic
import VolumeStore.Proofs.Client.Append
import VolumeStore.Proofs.Client.SideBySide
import VolumeStore.Proofs.Session.Isolation

/-!
# Appending to one file together

Clients that append to the same file side by side lose nothing: whatever turns they take, the file
is left with a merge of their pieces behind its bytes, each client's pieces in their order.
-/

namespace VolumeStore

open Client
open ServedStore (peerOf)

namespace Volume.LeadsToFile

variable {v : Volume} {t : Host.Tree} {path : String} {id : Host.FileId}

theorem exists_render (h : v.LeadsToFile t path id) :
    ∃ p : VolumePath, VolumePath.normalize path = .ok p.render ∧ v.LeadsToFile t p.render id := by
  obtain ⟨p, loc, hc, htop, htarget⟩ := h
  obtain ⟨hparse, home, hhome, hescape⟩ := confine_eq_ok hc
  refine ⟨p, VolumePath.normalize_of_parse hparse, p, loc, ?_, htop, htarget⟩
  · unfold confine
    rw [VolumePath.parse_render hparse]
    dsimp only
    rw [hhome]
    dsimp only
    rw [hescape]

end Volume.LeadsToFile

theorem Online.Steady.onlooker {o o' : Online ServedStore} {client : Client} {line other : Nat}
    {s : Session} {e : Execution} (h : (⟨client, o.network⟩ : Online ServedStore).Steady other s)
    (hcarried : o.Carried line e o') (hne : peerOf other ≠ peerOf line)
    (hafter : o.network.hub.store.tree.StoredAfter o'.network.hub.store.tree) :
    (⟨client, o'.network⟩ : Online ServedStore).Steady other s where
  client := h.client
  session := hcarried.network.others other s hne h.session
  mounted := h.mounted
  room := hcarried.network.settings ▸ h.room
  stored := hafter.stored
  files := h.files.mono hafter

namespace Crowd

variable {ι : Type} {c : Crowd ServedStore ι} {line : ι → Nat} {v : ι → Volume} {path : ι → String}
  {id : Host.FileId} {pieces : ι → List (List UInt8)} {i : ι} {piece : List UInt8}
  {rest : List (List UInt8)}

/-- Clients, each with a line of its own, have these pieces left to append to one file. -/
structure Appends (c : Crowd ServedStore ι) (line : ι → Nat) (v : ι → Volume) (path : ι → String)
    (id : Host.FileId) (pieces : ι → List (List UInt8)) : Prop where
  apart : ∀ i j, peerOf (line i) = peerOf (line j) → i = j
  steady : ∀ i, ∃ s, (c.online i).Steady (line i) s ∧ s.volume = .ok (v i)
  leads : ∀ i, (v i).LeadsToFile c.network.hub.store.tree (path i) id
  pending : ∀ i, (c.senders i).pending = (pieces i).map (.appending (path i))
  result : ∀ i, (c.senders i).result = .ok ()
  proper : ∀ i, ∀ piece ∈ pieces i, (ClientRequest.appending (path i) piece).Proper
  fits : ∀ i, ∀ piece ∈ pieces i,
    (ClientRequest.appending (path i) piece).Fits c.network.hub.store.settings

section Pieces

variable [DecidableEq ι]

theorem mem_of_mem_update (hpieces : pieces i = piece :: rest) {j : ι} {other : List UInt8}
    (h : other ∈ Function.update pieces i rest j) : other ∈ pieces j := by
  obtain rfl | hj := eq_or_ne j i
  · rw [Function.update_self] at h
    exact hpieces ▸ List.mem_cons_of_mem _ h
  · rwa [Function.update_of_ne hj] at h

theorem length_le_of_nil {schedule : List ι} (hpieces : pieces i = [])
    (h : ∀ j, (pieces j).length ≤ (i :: schedule).count j) (j : ι) :
    (pieces j).length ≤ schedule.count j := by
  obtain rfl | hj := eq_or_ne j i
  · rw [hpieces]
    exact Nat.zero_le _
  · exact (h j).trans_eq (List.count_cons_of_ne hj.symm)

theorem length_update_le {schedule : List ι} (hpieces : pieces i = piece :: rest)
    (h : ∀ j, (pieces j).length ≤ (i :: schedule).count j) (j : ι) :
    (Function.update pieces i rest j).length ≤ schedule.count j := by
  obtain rfl | hj := eq_or_ne j i
  · have hcount := h j
    rw [hpieces, List.length_cons, List.count_cons_self] at hcount
    rw [Function.update_self]
    omega
  · rw [Function.update_of_ne hj]
    exact (h j).trans_eq (List.count_cons_of_ne hj.symm)

theorem partOf_cons_update (hpieces : pieces i = piece :: rest) {merged : List (ι × List UInt8)}
    (h : ∀ j, partOf j merged = Function.update pieces i rest j) (j : ι) :
    partOf j ((i, piece) :: merged) = pieces j := by
  obtain rfl | hj := eq_or_ne j i
  · rw [partOf_cons_self, h, Function.update_self, hpieces]
  · rw [partOf_cons_of_ne hj.symm, h, Function.update_of_ne hj]

theorem sum_length_update [Fintype ι] (hpieces : pieces i = piece :: rest) :
    ∑ j, (pieces j).flatten.length =
      piece.length + ∑ j, (Function.update pieces i rest j).flatten.length := by
  have hothers : ∑ j ∈ {i}ᶜ, (Function.update pieces i rest j).flatten.length =
      ∑ j ∈ {i}ᶜ, (pieces j).flatten.length := by
    refine Finset.sum_congr rfl fun j hj => ?_
    rw [Finset.mem_compl, Finset.mem_singleton] at hj
    rw [Function.update_of_ne hj]
  have hupdated := Fintype.sum_eq_add_sum_compl i fun j =>
    (Function.update pieces i rest j).flatten.length
  rw [Fintype.sum_eq_add_sum_compl i, hupdated, hothers, Function.update_self, hpieces,
    List.flatten_cons, List.length_append, Nat.add_assoc]

end Pieces

def bytes (c : Crowd ServedStore ι) (id : Host.FileId) : List UInt8 :=
  (c.network.hub.store.tree.content id).toList

namespace Appends

theorem exists_exchange (h : c.Appends line v path id pieces) (hpieces : pieces i = piece :: rest)
    (hlt : (c.bytes id).length + piece.length < Host.sizeLimit) :
    ∃ response o, exchange ServedStore.network (.appending (path i) piece) (c.online i) =
      (.ok response, o) := by
  obtain ⟨s, hsteady, hvolume⟩ := h.steady i
  have hmem : piece ∈ pieces i := hpieces ▸ List.mem_cons_self
  obtain ⟨t', happend, -⟩ := (h.leads i).appendFile_of_lt hsteady.stored hlt
  exact hsteady.exists_exchange_append hvolume (h.proper i piece hmem) (h.fits i piece hmem) happend

theorem payloads (h : c.Appends line v path id pieces) (i : ι) :
    (c.senders i).pending.map (·.payload) = pieces i := by
  rw [h.pending i, List.map_map]
  exact List.map_id _

theorem length_pending (h : c.Appends line v path id pieces) (i : ι) :
    (c.senders i).pending.length = (pieces i).length := by
  rw [h.pending i, List.length_map]

theorem lt_length (h : c.Appends line v path id pieces) (i : ι) :
    id < c.network.hub.store.tree.contents.length := by
  obtain ⟨s, hsteady, -⟩ := h.steady i
  exact (h.leads i).lt_length hsteady.stored

variable [DecidableEq ι]

/-- A turn in which a piece is appended leaves it behind the bytes of the file, and the other pieces
still to append. -/
theorem turn (h : c.Appends line v path id pieces) (hpieces : pieces i = piece :: rest)
    {response : Response} {o : Online ServedStore}
    (hok : exchange ServedStore.network (.appending (path i) piece) (c.online i) =
      (.ok response, o)) :
    (c.turn ServedStore.network i).Appends line v path id (Function.update pieces i rest) ∧
      c.network.hub.store.tree.Rewritten id (c.bytes id ++ piece)
        (c.turn ServedStore.network i).network.hub.store.tree := by
  obtain ⟨s, hsteady, hvolume⟩ := h.steady i
  have hpending : (c.senders i).pending =
      .appending (path i) piece :: rest.map (.appending (path i)) := by
    rw [h.pending i, hpieces, List.map_cons]
  obtain ⟨hsteady', -, hrewritten, e, -, hcarried⟩ := hsteady.after_append hvolume
    (h.leads i).appendsTo hsteady.stored (h.proper i piece (hpieces ▸ List.mem_cons_self)) hok
  have hafter : c.network.hub.store.tree.StoredAfter o.network.hub.store.tree :=
    ⟨hsteady'.stored, Nat.le_of_eq hrewritten.length_contents.symm⟩
  have hnetwork : (c.turn ServedStore.network i).network = o.network := by
    rw [turn_of_ok hpending hok]
  have hself := senders_turn_self hpending hok
  rw [hnetwork]
  refine ⟨?_, hrewritten⟩
  -- The sender that had its turn has one piece less. To the others the file has changed, and that
  -- only keeps their paths leading to it.
  exact
    { apart := h.apart
      steady := fun j => by
        rw [online, hnetwork]
        obtain rfl | hj := eq_or_ne j i
        · rw [hself]
          exact ⟨_, hsteady', hvolume⟩
        · obtain ⟨s', hother, hvolume'⟩ := h.steady j
          rw [senders_turn_of_ne hj]
          exact ⟨s', hother.onlooker hcarried (fun heq => hj (h.apart j i heq)) hafter, hvolume'⟩
      leads := fun j => hnetwork ▸ (h.leads j).of_rewritten hrewritten
      pending := fun j => by
        obtain rfl | hj := eq_or_ne j i
        · rw [hself, Function.update_self]
        · rw [senders_turn_of_ne hj, Function.update_of_ne hj, h.pending j]
      result := fun j => by
        obtain rfl | hj := eq_or_ne j i
        · rw [hself]
          exact h.result j
        · rw [senders_turn_of_ne hj]
          exact h.result j
      proper := fun j other hother => h.proper j other (mem_of_mem_update hpieces hother)
      fits := fun j other hother => by
        rw [hnetwork, hcarried.network.settings]
        exact h.fits j other (mem_of_mem_update hpieces hother) }

/-- Every call has its turns: the file is left with a merge of all pieces behind its bytes, if there
is room for them or if no call fails. -/
theorem run [Fintype ι] [Nonempty ι] {schedule : List ι} (h : c.Appends line v path id pieces)
    (hturns : ∀ i, (pieces i).length ≤ schedule.count i)
    (hgoes : (c.bytes id).length + ∑ i, (pieces i).flatten.length < Host.sizeLimit ∨
      ∀ i, ((c.run ServedStore.network schedule).senders i).result = .ok ()) :
    (c.run ServedStore.network schedule).Appends line v path id (fun _ => []) ∧
    ∃ merged : List (ι × List UInt8), (∀ i, partOf i merged = pieces i) ∧
      (merged.map (·.2)).flatten.length = ∑ i, (pieces i).flatten.length ∧
      c.network.hub.store.tree.Rewritten id (c.bytes id ++ (merged.map (·.2)).flatten)
        (c.run ServedStore.network schedule).network.hub.store.tree := by
  -- By the turns: the bytes of the file and the pieces that are left are always those of the start.
  induction schedule generalizing c pieces with
  | nil =>
    obtain rfl : pieces = fun _ => [] :=
      funext fun i => List.length_eq_zero_iff.1 (Nat.le_zero.1 (hturns i))
    refine ⟨h, [], fun i => rfl, by simp, ?_⟩
    rw [List.map_nil, List.flatten_nil, List.append_nil]
    exact Host.Tree.rewritten_self _ _
  | cons i schedule ih =>
    cases hpieces : pieces i with
    | nil =>
      have hidle : c.turn ServedStore.network i = c :=
        turn_of_nil (by rw [h.pending i, hpieces, List.map_nil])
      rw [Crowd.run, hidle] at hgoes ⊢
      exact ih h (length_le_of_nil hpieces hturns) hgoes
    | cons piece rest =>
      have hpending : (c.senders i).pending =
          .appending (path i) piece :: rest.map (.appending (path i)) := by
        rw [h.pending i, hpieces, List.map_cons]
      have hsum := sum_length_update hpieces
      obtain ⟨response, o, hok⟩ : ∃ response o, exchange ServedStore.network
          (.appending (path i) piece) (c.online i) = (.ok response, o) := by
        obtain hroom | hok := hgoes
        · exact h.exists_exchange hpieces (by omega)
        · exact exchange_of_run hpending (hok i)
      obtain ⟨hnext, hrewritten⟩ := h.turn hpieces hok
      have hbytes : (c.turn ServedStore.network i).bytes id = c.bytes id ++ piece :=
        hrewritten.bytes
      have hgoes' := hgoes.imp_left fun hroom => show ((c.turn ServedStore.network i).bytes
          id).length + ∑ j, (Function.update pieces i rest j).flatten.length < Host.sizeLimit by
        rw [hbytes, List.length_append]
        omega
      obtain ⟨hend, merged, hparts, hlength, hleft⟩ :=
        ih hnext (length_update_le hpieces hturns) hgoes'
      rw [hbytes, List.append_assoc, ← List.flatten_cons] at hleft
      refine ⟨hend, (i, piece) :: merged, partOf_cons_update hpieces hparts, ?_,
        hrewritten.trans hleft⟩
      rw [List.map_cons, List.flatten_cons, List.length_append, hlength, hsum]

end Appends

end Crowd

/-! ## Calls that append to one file -/

namespace Client

/-- Linked clients of one store are called at once, each on a line of its own, to append data to a
path of its volume. The store takes payloads of the clients' sizes and the lines of their requests.
-/
structure AppendCalls {ι : Type} (served : ServedStore) (clients : ι → Client) (line : ι → Nat)
    (s : ι → Session) (v : ι → Volume) (path : ι → String) (data : ι → List UInt8) : Prop where
  running : served.hub.Running
  apart : ∀ i j, peerOf (line i) = peerOf (line j) → i = j
  linked : ∀ i, (⟨clients i, served⟩ : Online ServedStore).Linked (line i) (s i)
  volume : ∀ i, (s i).volume = .ok (v i)
  max : ∀ i, 1 ≤ (clients i).settings.maxPayload
  server : ∀ i, (clients i).settings.maxPayload ≤ served.hub.store.settings.maxPayload
  lines : ∀ i, ∀ r ∈ (Sender.appending (clients i) (path i) (data i)).pending,
    Text.byteLength r.command.toLine.toList ≤ served.hub.store.settings.maxCommandLength.toNat

namespace AppendCalls

variable {ι : Type} {served : ServedStore} {clients : ι → Client} {line : ι → Nat}
  {s : ι → Session} {v : ι → Volume} {path : ι → String} {data : ι → List UInt8} {id : Host.FileId}

theorem appends (h : AppendCalls served clients line s v path data)
    (hleads : ∀ i, (v i).LeadsToFile served.hub.store.tree (path i) id) :
    ∃ canonical, (Crowd.appending served clients path data).Appends line v canonical id
      fun i => appendPieces (clients i).settings.maxPayload.toNat (data i) := by
  choose p hnormalize hcanonical using fun i => (hleads i).exists_render
  have hsender : ∀ i, Sender.appending (clients i) (path i) (data i) =
      { client := clients i
        pending := (appendPieces (clients i).settings.maxPayload.toNat (data i)).map
          (.appending (p i).render) } := by
    intro i
    rw [Sender.appending_of_normalize (hnormalize i), appendRequests_eq]
  have hsent : ∀ i, ∀ piece ∈ appendPieces (clients i).settings.maxPayload.toNat (data i),
      ClientRequest.appending (p i).render piece ∈
        (Sender.appending (clients i) (path i) (data i)).pending := by
    intro i piece hpiece
    rw [hsender i]
    exact List.mem_map_of_mem hpiece
  -- What is left to append is all of the data, and nothing has failed yet.
  exact ⟨fun i => (p i).render,
    { apart := h.apart
      steady := fun i => by
        refine ⟨s i, ?_, h.volume i⟩
        show Online.Steady ⟨(Sender.appending (clients i) (path i) (data i)).client, served⟩ _ _
        rw [hsender i]
        exact (h.linked i).steady h.running
      leads := hcanonical
      pending := fun i => congrArg Sender.pending (hsender i)
      result := fun i => congrArg Sender.result (hsender i)
      proper := fun i piece hpiece =>
        proper_of_mem_appendRequests (hnormalize i)
          (appendRequests_eq _ _ _ ▸ List.mem_map_of_mem hpiece)
      fits := fun i piece hpiece =>
        { line := h.lines i _ (hsent i piece hpiece)
          payload := (length_of_mem_appendPieces hpiece).2.trans
            (UInt64.le_iff_toNat_le.1 (h.server i)) } }⟩

variable [Fintype ι] [DecidableEq ι] [Nonempty ι] {schedule : List ι}

theorem merged (h : AppendCalls served clients line s v path data)
    (hleads : ∀ i, (v i).LeadsToFile served.hub.store.tree (path i) id)
    (hturns : ∀ i, (Sender.appending (clients i) (path i) (data i)).pending.length ≤
      schedule.count i)
    (hgoes : (served.hub.store.tree.content id).toList.length + ∑ i, (data i).length <
        Host.sizeLimit ∨
      ∀ i, (((Crowd.appending served clients path data).run ServedStore.network
        schedule).senders i).returned? = some (.ok ())) :
    let final := (Crowd.appending served clients path data).run ServedStore.network schedule
    (∀ i, (final.senders i).returned? = some (.ok ())) ∧
    ∃ merged : List (ι × List UInt8),
      (∀ i, partOf i merged =
        (Sender.appending (clients i) (path i) (data i)).pending.map (·.payload)) ∧
      served.hub.store.tree.Rewritten id
        ((served.hub.store.tree.content id).toList ++ (merged.map (·.2)).flatten)
        final.network.hub.store.tree ∧
      (final.bytes id).length =
        (served.hub.store.tree.content id).toList.length + ∑ i, (data i).length ∧
      (final.bytes id).length < Host.sizeLimit := by
  intro final
  obtain ⟨canonical, happends⟩ := h.appends hleads
  have hsum : ∑ i, (appendPieces (clients i).settings.maxPayload.toNat (data i)).flatten.length =
      ∑ i, (data i).length :=
    Finset.sum_congr rfl fun i _ => by
      rw [flatten_appendPieces (UInt64.le_iff_toNat_le.1 (h.max i))]
  -- Each client has turns for all of its requests, so all of them have been sent at the end.
  obtain ⟨hend, merged, hparts, hlength, hrewritten⟩ := happends.run
    (fun i => (happends.length_pending i).symm.trans_le (hturns i))
    (hgoes.imp (fun hroom => hsum ▸ hroom) fun hok i => Sender.result_of_returned? (hok i))
  obtain ⟨s', hsteady, -⟩ := hend.steady (Classical.arbitrary ι)
  have hbytes : final.bytes id =
      (served.hub.store.tree.content id).toList ++ (merged.map (·.2)).flatten :=
    hrewritten.bytes
  refine ⟨fun i => ?_, merged, fun i => (hparts i).trans (happends.payloads i).symm, hrewritten,
    ?_, ?_⟩
  · exact (Sender.returned?_of_nil (hend.pending i)).trans (congrArg some (hend.result i))
  · rw [hbytes, List.length_append, hlength, hsum]
  · rw [Crowd.bytes, Host.Content.length_toList]
    exact hsteady.stored.size_lt id

end AppendCalls

/-! ## Two clients of one volume -/

theorem Met.appendCalls {t : Host.Tree} (h : Met t) {path : String} {p : VolumePath}
    (hparse : VolumePath.parse path = .ok p) (hshort : Text.byteLength p.render.toList ≤ 4089) :
    AppendCalls (pairStore t) pairClient (fun i => i) pairSession (fun _ => exampleVolume)
      (fun _ => path) pairData where
  running := h.running
  apart := by decide
  linked := h.linked
  volume _ := rfl
  max i := (h.appendCall hparse hshort i).max
  server i := (h.appendCall hparse hshort i).server
  lines i r hr := by
    rw [Sender.appending_of_normalize (VolumePath.normalize_of_parse hparse)] at hr
    exact (h.appendCall hparse hshort i).lines r hr

theorem appendCalls_f : AppendCalls (pairStore exampleTree) pairClient (fun i => i) pairSession
    (fun _ => exampleVolume) (fun _ => "/f") pairData :=
  met_exampleTree.appendCalls (p := ⟨["f"]⟩) (by decide) (by decide)

theorem leadsToFile_f :
    exampleVolume.LeadsToFile (pairStore exampleTree).hub.store.tree "/f" 0 :=
  (met_exampleTree.seated.appendsTo appendCall_f.parsed (met_exampleTree.spellable (by decide))
    filePlace_f (by decide)).leads

theorem length_pending_pair {path canonical : String}
    (h : VolumePath.normalize path = .ok canonical) (i : Fin 2) :
    (Sender.appending (pairClient i) path (pairData i)).pending.length ≤
      ([0, 1, 0] : List (Fin 2)).count i := by
  have hpieces : ∀ i,
      (appendPieces 2 (pairData i)).length ≤ ([0, 1, 0] : List (Fin 2)).count i := by
    decide +kernel
  rw [Sender.appending_of_normalize h, appendRequests_eq, List.length_map]
  exact hpieces i

theorem normalize_longPath : VolumePath.normalize longPath.render = .ok longPath.render :=
  VolumePath.normalize_of_parse parse_longPath

theorem appendCalls_longPath : AppendCalls (pairStore exampleTree) pairClient (fun i => i)
    pairSession (fun _ => exampleVolume) (fun _ => longPath.render) pairData :=
  met_exampleTree.appendCalls parse_longPath (by rw [byteLength_longPath]; decide)

theorem returned?_longPath_ne (schedule : List (Fin 2)) :
    (((Crowd.appending (pairStore exampleTree) pairClient (fun _ => longPath.render) pairData).run
      ServedStore.network (0 :: schedule)).senders 0).returned? ≠ some (.ok ()) := by
  intro hok
  generalize hcrowd : Crowd.appending (pairStore exampleTree) pairClient
    (fun _ => longPath.render) pairData = c at hok
  have hsender : c.senders 0 =
      { client := pairClient 0, pending := appendRequests 2 longPath.render (pairData 0) } := by
    rw [← hcrowd, Crowd.senders_appending, Sender.appending_of_normalize normalize_longPath]
    rfl
  have hnetwork : c.network = pairStore exampleTree := by
    rw [← hcrowd]
    rfl
  have hpieces : appendPieces 2 (pairData 0) = [[6, 7], [8]] := by decide +kernel
  have hrequests : appendRequests 2 longPath.render (pairData 0) =
      [.appending longPath.render [6, 7], .appending longPath.render [8]] := by
    rw [appendRequests_eq, hpieces]
    rfl
  have hpending : (c.senders 0).pending =
      [.appending longPath.render [6, 7], .appending longPath.render [8]] := by
    rw [hsender, hrequests]
  obtain ⟨response, o, hexchange⟩ :=
    Crowd.exchange_of_run hpending (Sender.result_of_returned? hok)
  have hsteady : (c.online 0).Steady 0 (pairSession 0) := by
    rw [Crowd.online, hsender, hnetwork]
    exact (met_exampleTree.linked 0).steady met_exampleTree.running
  -- The first append of the first client already needs the path that is too long.
  have hproper := @proper_of_mem_appendRequests 2 _ _ (pairData 0) normalize_longPath
    (.appending longPath.render [6, 7]) (hrequests ▸ List.mem_cons_self)
  obtain ⟨size, -, happend, -⟩ :=
    hsteady.of_exchange_append (appendCalls_longPath.volume 0) hproper hexchange
  exact not_short_longPath
    (Volume.length_hostPath_of_appendFile parse_longPath (congrArg Prod.fst happend))

/-! ## The calls -/

section

variable {ι : Type} {served : ServedStore} {clients : ι → Client} {line : ι → Nat}
  {s : ι → Session} {v : ι → Volume} {path : ι → String} {data : ι → List UInt8} {id : Host.FileId}

/-- Clients that append to one file at once, with their requests in any order, lose nothing. All
calls succeed if and only if there is room for all data, and then the file is left with the payloads
of all requests behind its bytes, each one whole and once and those of each client in their order,
and nothing else is changed. -/
theorem merged_of_run_appending [Fintype ι] [DecidableEq ι] [Nonempty ι]
    (h : AppendCalls served clients line s v path data)
    (hleads : ∀ i, (v i).LeadsToFile served.hub.store.tree (path i) id) {schedule : List ι}
    (hturns : ∀ i, (Sender.appending (clients i) (path i) (data i)).pending.length ≤
      schedule.count i) :
    let x := (served.hub.store.tree.content id).toList
    let final := (Crowd.appending served clients path data).run ServedStore.network schedule
    ((∀ i, (final.senders i).returned? = some (.ok ())) ↔
      x.length + ∑ i, (data i).length < Host.sizeLimit) ∧
    (x.length + ∑ i, (data i).length < Host.sizeLimit →
      ∃ merged : List (ι × List UInt8),
        (∀ i, partOf i merged =
          (Sender.appending (clients i) (path i) (data i)).pending.map (·.payload)) ∧
        served.hub.store.tree.Rewritten id (x ++ (merged.map (·.2)).flatten)
          final.network.hub.store.tree ∧
        (final.bytes id).length = x.length + ∑ i, (data i).length) := by
  intro x final
  refine ⟨⟨fun hok => ?_, fun hroom => (h.merged hleads hturns (.inl hroom)).1⟩, fun hroom => ?_⟩
  · obtain ⟨-, merged, -, -, hlength, hlt⟩ := h.merged hleads hturns (.inr hok)
    exact hlength ▸ hlt
  · obtain ⟨-, merged, hparts, hrewritten, hlength, -⟩ := h.merged hleads hturns (.inl hroom)
    exact ⟨merged, hparts, hrewritten, hlength⟩

end

theorem merged_of_run_appending_pair :
    AppendCalls (pairStore exampleTree) pairClient (fun i => i) pairSession (fun _ => exampleVolume)
        (fun _ => "/f") pairData ∧
      exampleVolume.LeadsToFile (pairStore exampleTree).hub.store.tree "/f" 0 ∧
      (∀ i, (Sender.appending (pairClient i) "/f" (pairData i)).pending.length ≤
        ([0, 1, 0] : List (Fin 2)).count i) ∧
      (∀ i, (((Crowd.appending (pairStore exampleTree) pairClient (fun _ => "/f") pairData).run
        ServedStore.network [0, 1, 0]).senders i).returned? = some (.ok ())) ∧
      (((Crowd.appending (pairStore exampleTree) pairClient (fun _ => "/f") pairData).run
        ServedStore.network [0, 1, 0]).bytes 0).length = 10 := by
  have hturns := @length_pending_pair "/f" "/f" (by decide)
  have hsize : ((pairStore exampleTree).hub.store.tree.content 0).toList.length +
      ∑ i, (pairData i).length = 10 := by
    rw [met_exampleTree.content_eq, content_exampleTree.1]
    rfl
  obtain ⟨hreturned, hmerged⟩ := merged_of_run_appending appendCalls_f
    (fun _ => leadsToFile_f) hturns
  rw [hsize] at hreturned hmerged
  obtain ⟨merged, -, -, hlength⟩ := hmerged (by decide)
  exact ⟨appendCalls_f, leadsToFile_f, hturns, hreturned.2 (by decide), hlength⟩

/-- A full file is not appended to, and neither is one at a path that is too long on the host. -/
theorem not_forall_returned_eq_ok :
    (¬ ∀ (served : ServedStore) (clients : Fin 2 → Client) (line : Fin 2 → Nat)
        (s : Fin 2 → Session) (v : Fin 2 → Volume) (path : Fin 2 → String)
        (data : Fin 2 → List UInt8) (id : Host.FileId) (schedule : List (Fin 2)),
      AppendCalls served clients line s v path data →
      (∀ i, (v i).LeadsToFile served.hub.store.tree (path i) id) →
      (∀ i, (Sender.appending (clients i) (path i) (data i)).pending.length ≤ schedule.count i) →
      ∀ i, (((Crowd.appending served clients path data).run ServedStore.network
        schedule).senders i).returned? = some (.ok ())) ∧
    ¬ ∀ (served : ServedStore) (clients : Fin 2 → Client) (line : Fin 2 → Nat)
        (s : Fin 2 → Session) (v : Fin 2 → Volume) (path : Fin 2 → String)
        (data : Fin 2 → List UInt8) (id : Host.FileId) (schedule : List (Fin 2))
        (home : Fin 2 → Host.Location) (p : Fin 2 → VolumePath),
      AppendCalls served clients line s v path data →
      (∀ i, (v i).Seated served.hub.store.tree (home i)) →
      (∀ i, VolumePath.parse (path i) = .ok (p i)) →
      (∀ i, served.hub.store.tree.node? (home i ++ (p i).names) = some (.file id)) →
      served.hub.store.tree.LinkFree →
      (served.hub.store.tree.content id).toList.length + ∑ i, (data i).length < Host.sizeLimit →
      (∀ i, (Sender.appending (clients i) (path i) (data i)).pending.length ≤ schedule.count i) →
      ∀ i, (((Crowd.appending served clients path data).run ServedStore.network
        schedule).senders i).returned? = some (.ok ()) := by
  constructor
  -- `/g` takes no more bytes, so its size cannot grow by what was sent.
  · intro h
    have hparse : VolumePath.parse "/g" = .ok ⟨["g"]⟩ := by decide
    have hcalls := met_exampleTree.appendCalls hparse (by decide)
    have hplace := Host.Tree.FilePlace.there
      ((met_exampleTree.node?_eq _).trans node?_exampleTree.2.1)
    have hleads : exampleVolume.LeadsToFile (pairStore exampleTree).hub.store.tree "/g" 1 :=
      (met_exampleTree.seated.appendsTo hparse (met_exampleTree.spellable (by decide)) hplace
        (by decide)).leads
    have hturns := @length_pending_pair "/g" "/g" (by decide)
    have hok := h _ _ _ _ _ _ _ _ _ hcalls (fun _ => hleads) hturns
    obtain ⟨-, merged, -, -, hlength, hlt⟩ := hcalls.merged (fun _ => hleads) hturns (.inr hok)
    rw [hlength, met_exampleTree.content_eq, Host.Content.length_toList,
      content_exampleTree.2.1] at hlt
    exact absurd hlt (by decide)
  -- The place of the file is not too long, but the path as it is written is.
  · intro h
    have hnode : (pairStore exampleTree).hub.store.tree.node? (exampleHome ++ longPath.names) =
        some (.file 2) := by
      rw [met_exampleTree.node?_eq, names_longPath]
      exact node?_exampleTree.2.2
    have hroom : ((pairStore exampleTree).hub.store.tree.content 2).toList.length +
        ∑ i, (pairData i).length < Host.sizeLimit := by
      rw [met_exampleTree.content_eq, content_exampleTree.2.2]
      decide
    have hok := h (pairStore exampleTree) pairClient (fun i => i) pairSession
      (fun _ => exampleVolume) (fun _ => longPath.render) pairData 2 [0, 1, 0]
      (fun _ => exampleHome) (fun _ => longPath) appendCalls_longPath
      (fun _ => met_exampleTree.seated) (fun _ => parse_longPath) (fun _ => hnode)
      linkFree_pairStore hroom (length_pending_pair normalize_longPath) 0
    exact returned?_longPath_ne [1, 0] hok

end Client

end VolumeStore
