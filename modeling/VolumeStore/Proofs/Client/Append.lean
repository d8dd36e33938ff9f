import VolumeStore.Proofs.Client.AppendRequests
import VolumeStore.Proofs.Host.LinkFree
import VolumeStore.Proofs.Volume.Appends

/-!
# Appending through a client

A client appends its data in pieces, each with a request of its own. What they leave together is
what one append of the whole leaves, and the call succeeds exactly when that append does.
-/

namespace VolumeStore

open Client Host.Tree

/-! ## Appends of a session -/

namespace Session

variable {settings : StoreSettings} {s : Session} {t t' : Host.Tree} {v : Volume} {path : String}
  {payload : List UInt8} {size : Nat}

theorem oneLine_appendedText (count size : Nat) : Text.OneLine (appendedText count size) := by
  have hfeed : '\n' ∉ (Text.decimal count).toList ++ " bytes appended, size".toList := by
    rw [List.mem_append, not_or]
    exact ⟨(Text.oneLine_decimal count).1, by decide⟩
  have hline := Text.oneLine_append_cons hfeed (c := ' ') (by decide) (Text.oneLine_decimal size)
  have hblank : " bytes appended, size ".toList = " bytes appended, size".toList ++ [' '] := by
    decide +kernel
  have htext : appendedText count size = String.ofList
      ((Text.decimal count).toList ++ " bytes appended, size".toList ++
        ' ' :: (Text.decimal size).toList) := by
    rw [← String.toList_inj, String.toList_ofList, appendedText, String.toList_append,
      String.toList_append, hblank, List.append_assoc, List.append_assoc, List.append_assoc,
      List.singleton_append]
  rwa [htext]

theorem executeMounted_append (hvolume : s.volume = .ok v)
    (happend : v.appendFile t path payload = (.ok size, t')) (len : UInt64) :
    s.executeMounted settings t (.append len path) payload =
      s.clearRenameSource.answer t' ReplyCode.actionDone (appendedText payload.length size) := by
  have hkept : s.clearRenameSource.volume = .ok v := hvolume
  show s.clearRenameSource.change t ReplyCode.actionDone _ _ = _
  rw [change, withVolume_of_ok hkept, happend]

theorem appendFile_of_not_failed (hvolume : s.volume = .ok v) {len : UInt64}
    (hunrefused : ∀ error,
      (s.executeMounted settings t (.append len path) payload).outcome ≠ .failed error) :
    ∃ size t', v.appendFile t path payload = (.ok size, t') := by
  cases happend : v.appendFile t path payload with
  | mk result t' =>
    cases result with
    | ok size => exact ⟨size, t', rfl⟩
    | error error =>
      have hkept : s.clearRenameSource.volume = .ok v := hvolume
      refine absurd ?_ (hunrefused (.volume error))
      show (s.clearRenameSource.change t ReplyCode.actionDone _ _).outcome = _
      rw [change, withVolume_of_ok hkept, happend]
      rfl

end Session

/-! ## Appends of a client -/

namespace Online.Steady

variable {o o' : Online ServedStore} {line : Nat} {s : Session} {v : Volume} {path : String}
  {id : Host.FileId} {base : Host.Tree} {piece : List UInt8} {pieces : List (List UInt8)}

theorem of_exchange_append (h : o.Steady line s) (hvolume : s.volume = .ok v)
    (hproper : (ClientRequest.appending path piece).Proper) {response : Response}
    (hok : exchange ServedStore.network (.appending path piece) o = (.ok response, o')) :
    ∃ size, o'.Steady line s.clearRenameSource ∧
      v.appendFile o.network.hub.store.tree path piece = (.ok size, o'.network.hub.store.tree) ∧
      ∃ e, e.session = s.clearRenameSource ∧ o.Carried line e o' := by
  obtain ⟨-, hunrefused⟩ := h.of_exchange_eq_ok hproper (congrArg Prod.fst hok)
  obtain ⟨size, t', happend⟩ := Session.appendFile_of_not_failed hvolume hunrefused
  have hcode : ReplyCode.IsPlain ReplyCode.actionDone := by decide
  obtain ⟨-, hsteady, hcarried⟩ := h.after_exchange hproper hok
    (Session.executeMounted_append hvolume happend _)
    (Response.read_ok _ hcode (Session.oneLine_appendedText _ _)) rfl rfl h.mounted
  refine ⟨size, hsteady, ?_, _, rfl, hcarried⟩
  rw [hcarried.network.tree]
  exact happend

theorem exists_exchange_append (h : o.Steady line s) (hvolume : s.volume = .ok v)
    (hproper : (ClientRequest.appending path piece).Proper)
    (hfits : (ClientRequest.appending path piece).Fits o.network.hub.store.settings) {size : Nat}
    {t' : Host.Tree}
    (happend : v.appendFile o.network.hub.store.tree path piece = (.ok size, t')) :
    ∃ response o', exchange ServedStore.network (.appending path piece) o = (.ok response, o') := by
  have hcode : ReplyCode.IsPlain ReplyCode.actionDone := by decide
  obtain ⟨o', hexchange, -⟩ := h.exchange_eq hproper hfits
    (Session.executeMounted_append hvolume happend _)
    (Response.read_ok _ hcode (Session.oneLine_appendedText _ _)) rfl rfl
  exact ⟨_, o', hexchange⟩

theorem after_append (h : o.Steady line s) (hvolume : s.volume = .ok v)
    (happends : v.AppendsTo o.network.hub.store.tree path id base) (hbase : base.Stored)
    (hproper : (ClientRequest.appending path piece).Proper) {response : Response}
    (hok : exchange ServedStore.network (.appending path piece) o = (.ok response, o')) :
    o'.Steady line s.clearRenameSource ∧ v.LeadsToFile o'.network.hub.store.tree path id ∧
      base.Rewritten id ((base.content id).toList ++ piece) o'.network.hub.store.tree ∧
      ∃ e, e.session = s.clearRenameSource ∧ o.Carried line e o' := by
  obtain ⟨size, hsteady, happend, hcarried⟩ := h.of_exchange_append hvolume hproper hok
  rw [happends.same] at happend
  obtain ⟨-, hrewritten⟩ := happends.leads.of_appendFile_eq_ok hbase happend
  exact ⟨hsteady, happends.leads.of_rewritten hrewritten, hrewritten, hcarried⟩

theorem of_batch_appends (h : o.Steady line s) (hvolume : s.volume = .ok v)
    (happends : v.AppendsTo o.network.hub.store.tree path id base) (hbase : base.Stored)
    (hne : pieces ≠ [])
    (hproper : ∀ piece ∈ pieces, (ClientRequest.appending path piece).Proper)
    {responses : List Response}
    (hok : batch ServedStore.network (pieces.map (.appending path)) o = (.ok responses, o')) :
    ∃ s', o'.Steady line s' ∧
      base.Rewritten id ((base.content id).toList ++ pieces.flatten) o'.network.hub.store.tree := by
  -- By the pieces: behind the first one the file is there, whether it had to be made or not.
  induction pieces generalizing o s base responses with
  | nil => exact absurd rfl hne
  | cons piece pieces ih =>
    obtain ⟨response, rest, o₁, rfl, hexchange, hbatch⟩ := batch_cons_eq_ok hok
    obtain ⟨hsteady, hleads, hrewritten, -⟩ :=
      h.after_append hvolume happends hbase (hproper piece List.mem_cons_self) hexchange
    by_cases hlast : pieces = []
    · subst hlast
      cases hbatch
      rw [List.flatten_singleton]
      exact ⟨_, hsteady, hrewritten⟩
    · obtain ⟨s', hsteady', hrewritten'⟩ := ih hsteady hvolume hleads.appendsTo hsteady.stored
        hlast (fun piece hmem => hproper piece (List.mem_cons_of_mem _ hmem)) hbatch
      rw [hrewritten.bytes, List.append_assoc, ← List.flatten_cons] at hrewritten'
      exact ⟨s', hsteady', hrewritten.trans hrewritten'⟩

theorem exists_batch_appends (h : o.Steady line s) (hvolume : s.volume = .ok v)
    (happends : v.AppendsTo o.network.hub.store.tree path id base) (hbase : base.Stored)
    (hproper : ∀ piece ∈ pieces, (ClientRequest.appending path piece).Proper)
    (hfits : ∀ piece ∈ pieces,
      (ClientRequest.appending path piece).Fits o.network.hub.store.settings)
    (hlt : (base.content id).toList.length + pieces.flatten.length < Host.sizeLimit) :
    ∃ responses o', batch ServedStore.network (pieces.map (.appending path)) o =
      (.ok responses, o') := by
  -- The induction is on the pieces. Behind the first one the path leads to the file, whatever led
  -- there before, and there is room for the rest.
  induction pieces generalizing o s base with
  | nil => exact ⟨[], o, rfl⟩
  | cons piece pieces ih =>
    rw [List.flatten_cons, List.length_append] at hlt
    have hfirst : (base.content id).toList.length + piece.length < Host.sizeLimit := by omega
    obtain ⟨t', happend, -⟩ := happends.leads.appendFile_of_lt hbase hfirst
    obtain ⟨response, o₁, hexchange⟩ := h.exists_exchange_append hvolume
      (hproper piece List.mem_cons_self) (hfits piece List.mem_cons_self)
      ((happends.same piece).trans happend)
    obtain ⟨hsteady, hleads, hrewritten, e, -, hcarried⟩ :=
      h.after_append hvolume happends hbase (hproper piece List.mem_cons_self) hexchange
    obtain ⟨responses, o₂, hbatch⟩ := ih hsteady hvolume hleads.appendsTo hsteady.stored
      (fun piece hmem => hproper piece (List.mem_cons_of_mem _ hmem))
      (fun piece hmem => hcarried.network.settings ▸ hfits piece (List.mem_cons_of_mem _ hmem))
      (by
        rw [hrewritten.bytes, List.length_append]
        omega)
    refine ⟨response :: responses, o₂, ?_⟩
    rw [List.map_cons]
    unfold batch
    rw [hexchange]
    dsimp only
    rw [hbatch]

variable {p : VolumePath} {home : Host.Location} {x : List UInt8}

theorem batch_appends (h : o.Steady line s) (hvolume : s.volume = .ok v)
    (hparse : VolumePath.parse path = .ok p) (hseated : v.Seated o.network.hub.store.tree home)
    (hs : v.Spellable o.network.hub.store.tree home p)
    (hplace : o.network.hub.store.tree.FilePlace (home ++ p.names) x id base) (hne : pieces ≠ [])
    (hproper : ∀ piece ∈ pieces, (ClientRequest.appending p.render piece).Proper) :
    (∀ responses o', batch ServedStore.network (pieces.map (.appending p.render)) o =
        (.ok responses, o') →
      v.HasRoom p x pieces.flatten ∧
        base.Rewritten id (x ++ pieces.flatten) o'.network.hub.store.tree) ∧
    (v.HasRoom p x pieces.flatten →
      (∀ piece ∈ pieces,
        (ClientRequest.appending p.render piece).Fits o.network.hub.store.settings) →
      ∃ responses o', batch ServedStore.network (pieces.map (.appending p.render)) o =
        (.ok responses, o')) := by
  have hrender := VolumePath.parse_render hparse
  have hbase := hplace.stored h.stored
  constructor
  · intro responses o' hok
    have hshort : (v.hostPath p).bytes.length < Host.maxPathBytes := by
      obtain ⟨piece, pieces, rfl⟩ := List.exists_cons_of_ne_nil hne
      obtain ⟨response, rest, o₁, rfl, hexchange, -⟩ := batch_cons_eq_ok hok
      obtain ⟨size, -, happend, -⟩ :=
        h.of_exchange_append hvolume (hproper piece List.mem_cons_self) hexchange
      exact Volume.length_hostPath_of_appendFile hrender (congrArg Prod.fst happend)
    have happends := hseated.appendsTo hrender hs hplace hshort
    obtain ⟨s', hsteady, hrewritten⟩ :=
      h.of_batch_appends hvolume happends hbase hne hproper hok
    rw [hplace.toList_content] at hrewritten
    -- What is left is stored, so it is not too large.
    have hsize := hsteady.stored.size_lt id
    rw [hrewritten.size_content, List.length_append] at hsize
    exact ⟨⟨hshort, hsize⟩, hrewritten⟩
  · intro hroom hfits
    exact h.exists_batch_appends hvolume (hseated.appendsTo hrender hs hplace hroom.1) hbase hproper
      hfits (hplace.toList_content ▸ hroom.2)

end Online.Steady

/-! ## Calls that append -/

namespace Client

/-- A linked client is called to append data to a path of its volume. The store takes payloads of
the client's size and the lines of its requests. -/
structure AppendCall (o : Online ServedStore) (line : Nat) (s : Session) (v : Volume)
    (home : Host.Location) (path : String) (p : VolumePath) (data : List UInt8) : Prop where
  running : o.network.hub.Running
  linked : o.Linked line s
  volume : s.volume = .ok v
  seated : v.Seated o.network.hub.store.tree home
  parsed : VolumePath.parse path = .ok p
  max : 1 ≤ o.client.settings.maxPayload
  server : o.client.settings.maxPayload ≤ o.network.hub.store.settings.maxPayload
  lines : ∀ r ∈ appendRequests o.client.settings.maxPayload.toNat p.render data,
    Text.byteLength r.command.toLine.toList ≤
      o.network.hub.store.settings.maxCommandLength.toNat

namespace AppendCall

variable {o : Online ServedStore} {line : Nat} {s : Session} {v : Volume} {home : Host.Location}
  {path : String} {p : VolumePath} {data x : List UInt8} {id : Host.FileId} {base : Host.Tree}

theorem proper (h : AppendCall o line s v home path p data) :
    ∀ piece ∈ appendPieces o.client.settings.maxPayload.toNat data,
      (ClientRequest.appending p.render piece).Proper := by
  intro piece hpiece
  exact proper_of_mem_appendRequests (VolumePath.normalize_of_parse h.parsed)
    (appendRequests_eq _ _ _ ▸ List.mem_map_of_mem hpiece)

theorem fits (h : AppendCall o line s v home path p data) :
    ∀ piece ∈ appendPieces o.client.settings.maxPayload.toNat data,
      (ClientRequest.appending p.render piece).Fits o.network.hub.store.settings :=
  fun _ hpiece =>
    { line := h.lines _ (appendRequests_eq _ _ _ ▸ List.mem_map_of_mem hpiece)
      payload := (length_of_mem_appendPieces hpiece).2.trans (UInt64.le_iff_toNat_le.1 h.server) }

theorem batch_appendRequests (h : AppendCall o line s v home path p data)
    (hs : v.Spellable o.network.hub.store.tree home p)
    (hplace : o.network.hub.store.tree.FilePlace (home ++ p.names) x id base) :
    (∀ responses o', batch ServedStore.network
        (appendRequests o.client.settings.maxPayload.toNat p.render data) o = (.ok responses, o') →
      v.HasRoom p x data ∧ base.Rewritten id (x ++ data) o'.network.hub.store.tree) ∧
    (v.HasRoom p x data → ∃ responses o', batch ServedStore.network
      (appendRequests o.client.settings.maxPayload.toNat p.render data) o =
        (.ok responses, o')) := by
  have hlimit : 0 < o.client.settings.maxPayload.toNat := UInt64.le_iff_toNat_le.1 h.max
  obtain ⟨hbatch, hexists⟩ := (h.linked.steady h.running).batch_appends h.volume h.parsed h.seated
    hs hplace (appendPieces_ne_nil hlimit data) h.proper
  rw [← appendRequests_eq, flatten_appendPieces hlimit data] at hbatch hexists
  exact ⟨hbatch, fun hroom => hexists hroom h.fits⟩

theorem hasRoom (h : AppendCall o line s v home path p data)
    (hs : v.Spellable o.network.hub.store.tree home p)
    (hplace : o.network.hub.store.tree.FilePlace (home ++ p.names) x id base)
    (hok : (appendFile ServedStore.network path data o).1 = .ok ()) : v.HasRoom p x data := by
  rw [appendFile_eq _ h.parsed] at hok
  obtain ⟨responses, hsent, -⟩ := andThen_eq_ok hok
  exact ((h.batch_appendRequests hs hplace).1 responses _ hsent).1

end AppendCall

/-! ## Two clients of one volume -/

def exampleVolume : Volume where
  root := ({} : StoreSettings).volumePath "ltptest"

def exampleHome : Host.Location :=
  [Text.encode "store_root", Text.encode "ltptest"]

/-- The store to which two clients have come, who have mounted the volume. It is computed only where
a proof asks for it. -/
@[irreducible]
def pairStore (t : Host.Tree) : ServedStore :=
  .meeting t 2 [{ command := .mount "ltptest" }]

def pairClient (i : Fin 2) : Client where
  settings := { maxPayload := 2 }
  connection := some ⟨i, {}⟩

def pairSession (i : Fin 2) : Session where
  peer := some (ServedStore.peerOf i)
  mounted := some ⟨"ltptest", exampleVolume⟩

def pairData : Fin 2 → List UInt8
  | 0 => [6, 7, 8]
  | 1 => [9, 10]

/-- The clients are linked with the store, which has left the files of the host as they were. -/
structure Met (t : Host.Tree) : Prop where
  stored : t.Stored
  lines : ∀ i : Fin 2, (pairStore t).HasLine i (pairSession i)
  settings : (pairStore t).hub.store.settings = {}
  seated : exampleVolume.Seated (pairStore t).hub.store.tree exampleHome
  root : (pairStore t).hub.store.tree.canSpell exampleVolume.root = true
  nodes : (pairStore t).hub.store.tree.nodes = t.nodes
  contents : (pairStore t).hub.store.tree.contents = t.contents

namespace Met

variable {t : Host.Tree}

theorem running (h : Met t) : (pairStore t).hub.Running := by
  unfold pairStore
  exact ServedStore.running_meeting h.stored 2 _

theorem linked (h : Met t) (i : Fin 2) :
    (⟨pairClient i, pairStore t⟩ : Online ServedStore).Linked i (pairSession i) :=
  ⟨rfl, h.lines i, rfl⟩

theorem spellable (h : Met t) {p : VolumePath}
    (hplace : pathLength (exampleHome ++ p.names) < Host.maxPathBytes) :
    exampleVolume.Spellable (pairStore t).hub.store.tree exampleHome p :=
  ⟨h.root, hplace⟩

theorem node?_eq (h : Met t) (loc : Host.Location) :
    (pairStore t).hub.store.tree.node? loc = t.node? loc := by
  unfold Host.Tree.node?
  rw [h.nodes]

theorem content_eq (h : Met t) (id : Host.FileId) :
    (pairStore t).hub.store.tree.content id = t.content id := by
  unfold Host.Tree.content
  rw [h.contents]

theorem appendCall (h : Met t) {path : String} {p : VolumePath}
    (hparse : VolumePath.parse path = .ok p) (hshort : Text.byteLength p.render.toList ≤ 4089)
    (i : Fin 2) : AppendCall ⟨pairClient i, pairStore t⟩ i (pairSession i) exampleVolume exampleHome
      path p (pairData i) where
  running := h.running
  linked := h.linked i
  volume := rfl
  seated := h.seated
  parsed := hparse
  max := by
    dsimp only [pairClient]
    decide
  server := by
    rw [h.settings]
    dsimp only [pairClient]
    decide
  lines r hr := by
    rw [appendRequests_eq] at hr
    obtain ⟨piece, hpiece, rfl⟩ := List.mem_map.1 hr
    have hlimit : ({} : StoreSettings).maxCommandLength.toNat = 4096 := by decide
    -- A piece has at most two bytes, so its length is written with one digit.
    have hcount : ∀ n < 3, Text.byteLength (Command.numberField (UInt64.ofNat n)).toList = 1 := by
      decide
    have hlt : piece.length < 3 := Nat.lt_succ_of_le (@length_of_mem_appendPieces 2 _ _ hpiece).2
    rw [h.settings, hlimit, ClientRequest.appending, byteLength_toLine_append, hcount _ hlt]
    omega

end Met

def repeated (n : Nat) (c : Char) : String :=
  String.ofList (List.replicate n c)

theorem isSegment_repeated {c : Char} (hc : c.utf8Size = 1) (hdot : c ≠ '.') (hslash : c ≠ '/')
    (hprintable : VolumePath.isControl c = false) {n : Nat} (hn : 0 < n)
    (hlong : n ≤ maxNameBytes) : VolumePath.IsSegment (repeated n c).toList := by
  have hlength (k : Nat) : Text.byteLength (List.replicate k c) = k := by
    induction k with
    | zero => rfl
    | succ k ih => rw [List.replicate_succ, Text.byteLength_cons, ih, hc, Nat.add_comm]
  obtain ⟨n, rfl⟩ := Nat.exists_eq_succ_of_ne_zero (Nat.ne_of_gt hn)
  rw [repeated, String.toList_ofList]
  exact
    { telling := by simp [VolumePath.isTrivialSegment, List.replicate_succ, hdot]
      descending := by simp [List.replicate_succ, hdot]
      short := by rwa [hlength]
      undivided := fun hmem => hslash (List.eq_of_mem_replicate hmem).symm
      printable := fun _ hmem => List.eq_of_mem_replicate hmem ▸ hprintable }

/-- A path that fits in a request and leads to a place which the host can spell out, while it is too
long behind the root as this is written. -/
def longPath : VolumePath :=
  ⟨List.replicate 15 (repeated 255 'd') ++ [repeated 235 'f']⟩

def deepNames : List Host.Name :=
  List.replicate 15 (List.replicate 255 0x64)

def deepName : Host.Name :=
  List.replicate 235 0x66

/-- The volume holds a file of five bytes, one that takes no more bytes, and one at the long path.
-/
@[irreducible]
def exampleTree : Host.Tree :=
  let shallow : Host.Tree :=
    { nodes := Session.servedVolume.nodes ++
        [(exampleHome ++ [Text.encode "f"], .file 0), (exampleHome ++ [Text.encode "g"], .file 1)]
      contents := [⟨[.bytes [1, 2, 3, 4, 5]]⟩, .zeros (Host.sizeLimit - 1)] }
  let deep := shallow.insertDirectories exampleHome deepNames
  (deep.insertFile (exampleHome ++ (deepNames ++ [deepName]))).2

theorem mem_nodes_exampleTree : ∀ entry ∈ exampleTree.nodes,
    entry.2 ∈ [.directory, .file 0, .file 1, .file 2] := by
  decide +kernel

theorem node?_exampleTree :
    exampleTree.node? (exampleHome ++ [Text.encode "f"]) = some (.file 0) ∧
      exampleTree.node? (exampleHome ++ [Text.encode "g"]) = some (.file 1) ∧
      exampleTree.node? (exampleHome ++ (deepNames ++ [deepName])) = some (.file 2) := by
  decide +kernel

theorem contents_exampleTree : exampleTree.contents =
    [⟨[.bytes [1, 2, 3, 4, 5]]⟩, .zeros (Host.sizeLimit - 1), {}] := by
  unfold exampleTree
  rfl

theorem content_exampleTree : (exampleTree.content 0).toList = [1, 2, 3, 4, 5] ∧
    (exampleTree.content 1).size = Host.sizeLimit - 1 ∧ (exampleTree.content 2).toList = [] := by
  unfold Host.Tree.content
  rw [contents_exampleTree]
  exact ⟨rfl, rfl, rfl⟩

theorem stored_exampleTree : exampleTree.Stored where
  named entry hentry id hid := by
    have hnode := mem_nodes_exampleTree entry hentry
    rw [hid] at hnode
    rw [contents_exampleTree]
    obtain rfl | rfl | rfl : id = 0 ∨ id = 1 ∨ id = 2 := by simpa using hnode
    · decide
    · decide
    · decide
  sized := by
    rw [contents_exampleTree]
    decide

theorem met_exampleTree : Met exampleTree where
  stored := stored_exampleTree
  lines := by decide +kernel
  settings := by decide +kernel
  seated :=
    { connected := (wellFormed_of_nodes (by decide +kernel) (by decide +kernel)).toConnected
      target := by decide +kernel
      directory := by decide +kernel }
  root := by decide +kernel
  nodes := by decide +kernel
  contents := by decide +kernel

theorem filePlace_f : (pairStore exampleTree).hub.store.tree.FilePlace
    (exampleHome ++ VolumePath.names ⟨["f"]⟩) [1, 2, 3, 4, 5] 0
    (pairStore exampleTree).hub.store.tree := by
  have hplace := FilePlace.there ((met_exampleTree.node?_eq _).trans node?_exampleTree.1)
  rwa [met_exampleTree.content_eq, content_exampleTree.1] at hplace

theorem appendCall_f : AppendCall ⟨pairClient 0, pairStore exampleTree⟩ 0 (pairSession 0)
    exampleVolume exampleHome "/f" ⟨["f"]⟩ (pairData 0) :=
  met_exampleTree.appendCall (by decide) (by decide) 0

theorem isWritten_longPath : longPath.IsWritten := by
  refine VolumePath.isWritten_iff.2 ⟨fun segment hmem => ?_, by decide⟩
  rcases List.mem_append.1 hmem with hmem | hmem
  · rw [List.eq_of_mem_replicate hmem]
    exact isSegment_repeated (by decide) (by decide) (by decide) (by decide) (by decide) (by decide)
  · rw [List.mem_singleton.1 hmem]
    exact isSegment_repeated (by decide) (by decide) (by decide) (by decide) (by decide) (by decide)

theorem encode_repeated {c : Char} {b : UInt8} (h : String.utf8EncodeChar c = [b]) (n : Nat) :
    Text.encode (repeated n c) = List.replicate n b := by
  rw [repeated, Text.encode_ofList]
  induction n with
  | zero => rfl
  | succ n ih => rw [List.replicate_succ, List.flatMap_cons, ih, h, List.replicate_succ]; rfl

theorem names_longPath : longPath.names = deepNames ++ [deepName] := by
  rw [VolumePath.names, longPath, List.map_append, List.map_replicate, List.map_singleton,
    encode_repeated (b := 0x64) (by decide), encode_repeated (b := 0x66) (by decide)]
  rfl

theorem length_intercalate {α : Type} (sep : α) {fields : List (List α)} (h : fields ≠ []) :
    (List.intercalate [sep] fields).length + 1 = fields.flatten.length + fields.length := by
  induction fields with
  | nil => exact absurd rfl h
  | cons field fields ih =>
    cases fields with
    | nil => simp
    | cons next fields =>
      have hrest := ih (by simp)
      rw [List.intercalate_cons_cons, List.flatten_cons, List.length_append, List.length_append,
        List.length_append, List.length_singleton, List.length_cons]
      omega

theorem length_longPath : (List.intercalate [Host.slash] longPath.names).length = 4075 := by
  have hlength := @length_intercalate _ Host.slash (deepNames ++ [deepName]) (by simp)
  have hnames : (deepNames ++ [deepName]).flatten.length = 15 * 255 + 235 := by
    rw [deepNames, deepName, List.flatten_append, List.length_append, List.flatten_singleton,
      List.length_replicate, List.flatten_replicate_replicate, List.length_replicate]
  have hcount : (deepNames ++ [deepName]).length = 16 := rfl
  rw [hnames, hcount] at hlength
  rw [names_longPath]
  omega

theorem byteLength_longPath : Text.byteLength longPath.render.toList = 4076 := by
  rw [← Text.length_encode, VolumePath.encode_render, List.length_cons, length_longPath]

theorem parse_longPath : VolumePath.parse longPath.render = .ok longPath := by
  obtain ⟨path, hparse⟩ := isWritten_longPath
  exact VolumePath.parse_render hparse

theorem not_short_longPath :
    ¬ (exampleVolume.hostPath longPath).bytes.length < Host.maxPathBytes := by
  have hstem : exampleVolume.stem.length = 20 := by decide
  have hroot : exampleVolume.root.bytes ≠ [] := by decide
  rw [Volume.hostPath_bytes hroot (VolumePath.isProper_of_parse parse_longPath)
    (VolumePath.names_ne_nil nofun), List.length_append, List.length_cons, length_longPath, hstem]
  decide

theorem pathLength_longPath :
    pathLength (exampleHome ++ longPath.names) < Host.maxPathBytes := by
  rw [names_longPath]
  decide +kernel

theorem linkFree_pairStore : (pairStore exampleTree).hub.store.tree.LinkFree := by
  refine linkFree_of_nodes fun entry hentry hlink => ?_
  rw [met_exampleTree.nodes] at hentry
  have hnode := mem_nodes_exampleTree entry hentry
  generalize entry.2 = node at hnode hlink
  cases node with
  | link target => simp at hnode
  | _ => cases hlink

/-! ## The call -/

section

variable {o : Online ServedStore} {line : Nat} {s : Session} {v : Volume} {home : Host.Location}
  {path : String} {p : VolumePath} {data x : List UInt8} {id : Host.FileId} {base : Host.Tree}

/-- A call that appends data to a file that is there, or to a new one in a directory that is there,
does what one append of the volume does, if the host can spell out the place of the file: it
succeeds if and only if that one does, with the path as it is written short enough for the host and
the size below its limit, and then both leave the file with the data behind its bytes and nothing
else changed. The data is split into as few pieces as the limit of the client allows, and each is
sent with its length. -/
theorem appended_of_appendFile (h : AppendCall o line s v home path p data)
    (hs : v.Spellable o.network.hub.store.tree home p)
    (hplace : o.network.hub.store.tree.FilePlace (home ++ p.names) x id base) :
    ((appendFile ServedStore.network path data o).1 = .ok () ↔ v.HasRoom p x data) ∧
    ((∃ size, (v.appendFile o.network.hub.store.tree path data).1 = .ok size) ↔
      v.HasRoom p x data) ∧
    (v.HasRoom p x data →
      base.Rewritten id (x ++ data)
        (appendFile ServedStore.network path data o).2.network.hub.store.tree ∧
      (v.appendFile o.network.hub.store.tree path data).1 = .ok (x.length + data.length) ∧
      base.Rewritten id (x ++ data) (v.appendFile o.network.hub.store.tree path data).2 ∧
      ∃ requests, Splits o.client.settings.maxPayload.toNat p.render data requests ∧
        ∀ sent, (appendFile ServedStore.network.recording path data
          ⟨o.client, (o.network, sent)⟩).2.network.2 =
            sent ++ requests.map ClientRequest.toBytes) := by
  have hstored := (h.linked.steady h.running).stored
  obtain ⟨hbatch, hexists⟩ := h.batch_appendRequests hs hplace
  refine ⟨⟨h.hasRoom hs hplace, fun hroom => ?_⟩, ⟨fun ⟨size, hok⟩ => ?_, fun hroom => ?_⟩,
    fun hroom => ?_⟩
  · obtain ⟨responses, o', hsent⟩ := hexists hroom
    rw [appendFile_eq _ h.parsed, andThen_of_ok hsent]
  · exact h.seated.hasRoom_of_appendFile hstored h.parsed hs hplace hok
  · exact ⟨_, (h.seated.appendFile_of_hasRoom hstored h.parsed hs hplace hroom).1⟩
  · obtain ⟨responses, o', hsent⟩ := hexists hroom
    obtain ⟨hsize, hstorage⟩ := h.seated.appendFile_of_hasRoom hstored h.parsed hs hplace hroom
    refine ⟨?_, hsize, hstorage, _, splits_appendRequests h.max p.render data, fun sent => ?_⟩
    · rw [appendFile_eq _ h.parsed, andThen_of_ok hsent]
      exact (hbatch responses o' hsent).2
    · rw [appendFile_eq _ h.parsed, andThen_of_ok (batch_recording hsent sent)]

end

theorem appended_of_appendFile_twoPieces :
    AppendCall ⟨pairClient 0, pairStore exampleTree⟩ 0 (pairSession 0) exampleVolume exampleHome
        "/f" ⟨["f"]⟩ [6, 7, 8] ∧
      exampleVolume.Spellable (pairStore exampleTree).hub.store.tree exampleHome ⟨["f"]⟩ ∧
      (pairStore exampleTree).hub.store.tree.FilePlace (exampleHome ++ VolumePath.names ⟨["f"]⟩)
        [1, 2, 3, 4, 5] 0 (pairStore exampleTree).hub.store.tree ∧
      (appendFile ServedStore.network "/f" [6, 7, 8] ⟨pairClient 0, pairStore exampleTree⟩).1 =
        .ok () ∧
      (pairStore exampleTree).hub.store.tree.Rewritten 0 ([1, 2, 3, 4, 5] ++ [6, 7, 8])
        (appendFile ServedStore.network "/f" [6, 7, 8]
          ⟨pairClient 0, pairStore exampleTree⟩).2.network.hub.store.tree := by
  have hroom : exampleVolume.HasRoom ⟨["f"]⟩ [1, 2, 3, 4, 5] [6, 7, 8] :=
    ⟨by decide, by decide⟩
  have hs := met_exampleTree.spellable (p := ⟨["f"]⟩) (by decide)
  obtain ⟨hok, -, happended⟩ := appended_of_appendFile appendCall_f hs filePlace_f
  exact ⟨appendCall_f, hs, filePlace_f, hok.2 hroom, (happended hroom).1⟩

/-- A path that is too long on the host is not appended to, and neither is a full file. -/
theorem not_forall_appendFile_eq_ok :
    (¬ ∀ (o : Online ServedStore) (line : Nat) (s : Session) (v : Volume) (home : Host.Location)
        (path : String) (p : VolumePath) (data x : List UInt8) (id : Host.FileId)
        (base : Host.Tree),
      AppendCall o line s v home path p data →
      v.Spellable o.network.hub.store.tree home p →
      o.network.hub.store.tree.FilePlace (home ++ p.names) x id base →
      o.network.hub.store.tree.LinkFree →
      x.length + data.length < Host.sizeLimit →
      (appendFile ServedStore.network path data o).1 = .ok ()) ∧
    ¬ ∀ (o : Online ServedStore) (line : Nat) (s : Session) (v : Volume) (home : Host.Location)
        (path : String) (p : VolumePath) (data x : List UInt8) (id : Host.FileId)
        (base : Host.Tree),
      AppendCall o line s v home path p data →
      v.Spellable o.network.hub.store.tree home p →
      o.network.hub.store.tree.FilePlace (home ++ p.names) x id base →
      o.network.hub.store.tree.LinkFree →
      (v.hostPath p).bytes.length < Host.maxPathBytes →
      (appendFile ServedStore.network path data o).1 = .ok () := by
  constructor
  -- The place of the file is not too long, but the path as it is written is.
  · intro h
    have hcall := met_exampleTree.appendCall parse_longPath (by rw [byteLength_longPath]; decide) 0
    have hnode : exampleTree.node? (exampleHome ++ longPath.names) = some (.file 2) := by
      rw [names_longPath]
      exact node?_exampleTree.2.2
    have hplace := FilePlace.there ((met_exampleTree.node?_eq _).trans hnode)
    rw [met_exampleTree.content_eq, content_exampleTree.2.2] at hplace
    have hs := met_exampleTree.spellable pathLength_longPath
    exact not_short_longPath (hcall.hasRoom hs hplace
      (h _ _ _ _ _ _ _ _ _ _ _ hcall hs hplace linkFree_pairStore (by decide))).1
  -- `/g` takes no more bytes, so there is no room for the data.
  · intro h
    have hparse : VolumePath.parse "/g" = .ok ⟨["g"]⟩ := by decide
    have hcall := met_exampleTree.appendCall hparse (by decide) 0
    have hplace := FilePlace.there ((met_exampleTree.node?_eq _).trans node?_exampleTree.2.1)
    have hshort : (exampleVolume.hostPath ⟨["g"]⟩).bytes.length < Host.maxPathBytes := by decide
    have hs := met_exampleTree.spellable (p := ⟨["g"]⟩) (by decide)
    have hlt := (hcall.hasRoom hs hplace
      (h _ _ _ _ _ _ _ _ _ _ _ hcall hs hplace linkFree_pairStore hshort)).2
    rw [met_exampleTree.content_eq, Host.Content.length_toList, content_exampleTree.2.1] at hlt
    exact absurd hlt (by decide)

end Client

end VolumeStore
