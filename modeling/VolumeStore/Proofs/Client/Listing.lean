import VolumeStore.Proofs.Client.Append
import VolumeStore.Proofs.Volume.Listing

/-!
# Listing through a client

Each entry of a listing goes on a line of its own, which is read back from its end, so bars in a
name do no harm. A client that lists a directory gets what the volume lists.
-/

namespace VolumeStore

open Client

/-! ## Entries on lines -/

namespace DirEntry

variable {e : DirEntry}

theorem toList_render (e : DirEntry) : e.render.toList =
    ((e.name.toList ++ '|' :: [kindLetter e.isDir]) ++ '|' :: (Text.decimal e.size.toNat).toList) ++
      '|' :: (Text.decimal e.mtime.toNat).toList := by
  have hbar : "|".toList = ['|'] := rfl
  simp only [render, String.toList_append, String.toList_singleton, hbar, List.append_assoc,
    List.cons_append, List.nil_append]

theorem bar_notMem_decimal (n : Nat) : '|' ∉ (Text.decimal n).toList :=
  fun hmem => absurd (Text.isDigitOf_of_mem_decimal hmem) (by decide)

theorem readKind?_kindLetter (isDir : Bool) : readKind? [kindLetter isDir] = some isDir := by
  cases isDir <;> rfl

theorem parse_render (h : e.name ≠ "") : parse e.render = .ok e := by
  have hkind : '|' ∉ [kindLetter e.isDir] := by
    cases e.isDir <;> decide
  have hname : e.name.toList.isEmpty = false := by
    rw [List.isEmpty_eq_false_iff]
    exact fun hnil => h (String.toList_inj.1 hnil)
  have hparse : parse? e.render.toList = some e := by
    -- Each cut takes the last field that is left.
    unfold parse?
    rw [toList_render, Text.cutLast?_append_cons _ (bar_notMem_decimal _)]
    simp only [bind, Option.bind, Text.readUInt64?_decimal]
    rw [Text.cutLast?_append_cons _ (bar_notMem_decimal _)]
    simp only [Text.readUInt64?_decimal]
    rw [Text.cutLast?_append_cons _ hkind]
    simp only [readKind?_kindLetter, hname, String.ofList_toList]
    rfl
  unfold parse
  rw [hparse]

theorem oneLine_render (h : '\n' ∉ e.name.toList) : Text.OneLine e.render := by
  have hkind : '\n' ∉ [kindLetter e.isDir] := by
    cases e.isDir <;> decide
  have hfront : '\n' ∉ (e.name.toList ++ '|' :: [kindLetter e.isDir]) ++
      '|' :: (Text.decimal e.size.toNat).toList := by
    simp only [List.mem_append, List.mem_cons (b := '|'), not_or]
    exact ⟨⟨h, by decide, hkind⟩, by decide, (Text.oneLine_decimal _).1⟩
  have hline := Text.oneLine_append_cons hfront (c := '|') (by decide)
    (Text.oneLine_decimal e.mtime.toNat)
  rwa [← toList_render, String.ofList_toList] at hline

theorem mapM_parse_render {entries : List DirEntry} (h : ∀ e ∈ entries, e.name ≠ "") :
    (entries.map (·.render)).mapM parse = .ok entries := by
  induction entries with
  | nil => rfl
  | cons e entries ih =>
    rw [List.map_cons, List.mapM_cons, parse_render (h e List.mem_cons_self),
      ih fun e hmem => h e (List.mem_cons_of_mem _ hmem)]
    rfl

end DirEntry

/-! ## Listings of a session -/

namespace Session

variable {settings : StoreSettings} {s : Session} {t : Host.Tree} {v : Volume} {path : String}
  {entries : List DirEntry} {payload : List UInt8}

theorem executeMounted_list (hvolume : s.volume = .ok v)
    (hlist : v.listDirectory t path = .ok entries) :
    s.executeMounted settings t (.list path) payload =
      ⟨.done ⟨ReplyCode.listing, Text.decimal (entries.map (·.render)).length⟩
        (.lines (entries.map (·.render))), s.clearRenameSource, t⟩ := by
  have hkept : s.clearRenameSource.volume = .ok v := hvolume
  show s.clearRenameSource.listDirectory t path = _
  rw [listDirectory, withVolume_of_ok hkept, hlist, List.length_map]

theorem listDirectory_of_not_failed (hvolume : s.volume = .ok v)
    (hunrefused : ∀ error,
      (s.executeMounted settings t (.list path) payload).outcome ≠ .failed error) :
    ∃ entries, v.listDirectory t path = .ok entries := by
  cases hlist : v.listDirectory t path with
  | ok entries => exact ⟨entries, rfl⟩
  | error error =>
    have hkept : s.clearRenameSource.volume = .ok v := hvolume
    refine absurd ?_ (hunrefused (.volume error))
    show (s.clearRenameSource.listDirectory t path).outcome = _
    rw [listDirectory, withVolume_of_ok hkept, hlist]
    rfl

end Session

theorem Client.byteLength_toLine_list (path : String) :
    Text.byteLength (Command.list path).toLine.toList = 5 + Text.byteLength path.toList := by
  have hverb : Text.byteLength (Command.list path).verb.token.toList = 4 := by
    show Text.byteLength Verb.list.token.toList = 4
    decide
  rw [Command.byteLength_toLine rfl, hverb, Command.fields_one rfl]

/-! ## Listings of a client -/

namespace Client

/-- A linked client is called to list a directory of its volume. The store takes the line of its
request. The names in the directory are texts that take a line, and 64 bits are enough to count
them. -/
structure ListCall (o : Online ServedStore) (line : Nat) (s : Session) (v : Volume)
    (home : Host.Location) (path : String) (p : VolumePath) (loc : Host.Location) : Prop where
  running : o.network.hub.Running
  linked : o.Linked line s
  volume : s.volume = .ok v
  parsed : VolumePath.parse path = .ok p
  leads : v.LeadsInside o.network.hub.store.tree home p loc
  request : Text.byteLength (Command.list p.render).toLine.toList ≤
    o.network.hub.store.settings.maxCommandLength.toNat
  unique : (o.network.hub.store.tree.nodes.map (·.1)).Nodup
  texts : Volume.HasTexts o.network.hub.store.tree loc
  count : (o.network.hub.store.tree.children loc).length < UInt64.size

namespace ListCall

variable {o : Online ServedStore} {line : Nat} {s : Session} {v : Volume} {home loc : Host.Location}
  {path : String} {p : VolumePath} {response : Response}

theorem lists (h : ListCall o line s v home path p loc) :
    Volume.Lists o.network.hub.store.tree loc (Volume.listing o.network.hub.store.tree loc) :=
  Volume.lists_listing h.unique h.texts

theorem name_of_mem (h : ListCall o line s v home path p loc) {e : DirEntry}
    (hmem : e ∈ Volume.listing o.network.hub.store.tree loc) :
    e.name ≠ "" ∧ '\n' ∉ e.name.toList := by
  obtain ⟨name, node, hnode, htells⟩ := h.lists.sound e hmem
  obtain ⟨text, hne, hfeed, htext⟩ := h.texts name node hnode
  have hname : e.name = text := Text.encode_injective (htells.named.trans htext)
  rw [hname]
  exact ⟨hne, hfeed⟩

theorem listDirectory_eq (h : ListCall o line s v home path p loc) :
    listDirectory ServedStore.network path o =
      andThen (exchange ServedStore.network { command := .list p.render }) entriesOf o :=
  withPath_of_ok (VolumePath.normalize_of_parse h.parsed) o

theorem proper (h : ListCall o line s v home path p loc) :
    ClientRequest.Proper { command := .list p.render } := by
  refine ClientRequest.proper_of_normalize (VolumePath.normalize_of_parse h.parsed) rfl
    (fun name he => ?_) (fun flags he => ?_) rfl
  · cases he
  · cases he

theorem read_eq (h : ListCall o line s v home path p loc) :
    let lines := (Volume.listing o.network.hub.store.tree loc).map (·.render)
    Response.read (.list p.render)
        ⟨(Outcome.done ⟨ReplyCode.listing, Text.decimal lines.length⟩ (.lines lines)).toBytes,
          false⟩ =
      .ok ({ reply := ⟨ReplyCode.listing, Text.decimal lines.length⟩, lines := lines }, {}) := by
  refine Response.read_lines _ (fun text htext => ?_) ?_
  · obtain ⟨e, hmem, rfl⟩ := List.mem_map.1 htext
    exact DirEntry.oneLine_render (h.name_of_mem hmem).2
  · rw [List.length_map, Volume.length_listing]
    exact h.count

theorem entriesOf_eq (h : ListCall o line s v home path p loc) {reply : Reply} :
    entriesOf ⟨reply, (Volume.listing o.network.hub.store.tree loc).map (·.render), []⟩ =
      .ok (Volume.listing o.network.hub.store.tree loc) := by
  unfold entriesOf
  rw [DirEntry.mapM_parse_render fun e hmem => (h.name_of_mem hmem).1]
  rfl

theorem execution_eq (h : ListCall o line s v home path p loc)
    (hfollowed : v.Followed o.network.hub.store.tree p) :
    let lines := (Volume.listing o.network.hub.store.tree loc).map (·.render)
    o.execution s { command := .list p.render } =
      ⟨.done ⟨ReplyCode.listing, Text.decimal lines.length⟩ (.lines lines), s.clearRenameSource,
        o.network.hub.store.tree⟩ :=
  Session.executeMounted_list h.volume
    (h.leads.listDirectory_eq (VolumePath.parse_render h.parsed) hfollowed)

theorem followed_of_exchange (h : ListCall o line s v home path p loc)
    (hok : (exchange ServedStore.network { command := .list p.render } o).1 = .ok response) :
    v.Followed o.network.hub.store.tree p := by
  obtain ⟨-, hunrefused⟩ := (h.linked.steady h.running).of_exchange_eq_ok h.proper hok
  obtain ⟨entries, hlist⟩ := Session.listDirectory_of_not_failed h.volume hunrefused
  exact Volume.followed_of_listDirectory (VolumePath.parse_render h.parsed) hlist

theorem followed (h : ListCall o line s v home path p loc) {entries : List DirEntry}
    (hok : (listDirectory ServedStore.network path o).1 = .ok entries) :
    v.Followed o.network.hub.store.tree p := by
  rw [h.listDirectory_eq] at hok
  obtain ⟨response, hexchange, -⟩ := andThen_eq_ok hok
  exact h.followed_of_exchange (congrArg Prod.fst hexchange)

end ListCall

/-! ## A listed volume -/

section

open Text (encode)

variable {path : String} {p : VolumePath} {loc : Host.Location}

/-- The volume holds a directory with a file, a directory and a link in it, a link to that
directory, and a directory at the long path. -/
@[irreducible]
def listedTree : Host.Tree :=
  let shallow : Host.Tree :=
    { nodes := Session.servedVolume.nodes ++
        [(exampleHome ++ [encode "d"], .directory),
          (exampleHome ++ [encode "d", encode "x|d|7|7"], .file 0),
          (exampleHome ++ [encode "d", encode "é "], .directory),
          (exampleHome ++ [encode "d", encode "up"], .link (encode "..")),
          (exampleHome ++ [encode "in"], .link (encode "d"))]
      contents := [⟨[.bytes [1, 2, 3]]⟩] }
  shallow.insertDirectories exampleHome (deepNames ++ [deepName])

theorem stored_listedTree : listedTree.Stored where
  named entry hentry id hid := by
    have hnames : ∀ entry ∈ listedTree.nodes, entry.2 ∈
        [.directory, .file 0, .link (encode ".."), .link (encode "d")] := by
      decide +kernel
    have hnode := hnames entry hentry
    rw [hid] at hnode
    obtain rfl : id = 0 := by simpa using hnode
    decide +kernel
  sized := by
    unfold listedTree
    decide +kernel

theorem met_listedTree : Met listedTree where
  stored := stored_listedTree
  lines := by decide +kernel
  settings := by decide +kernel
  seated :=
    { connected :=
        (Host.Tree.wellFormed_of_nodes (by decide +kernel) (by decide +kernel)).toConnected
      target := by decide +kernel
      directory := by decide +kernel }
  root := by decide +kernel
  nodes := by decide +kernel
  contents := by decide +kernel

theorem unique_listedTree : ((pairStore listedTree).hub.store.tree.nodes.map (·.1)).Nodup := by
  rw [met_listedTree.nodes]
  decide +kernel

theorem listCall_listedTree (hparse : VolumePath.parse path = .ok p)
    (hshort : Text.byteLength p.render.toList ≤ 4091)
    (hleads : exampleVolume.LeadsInside (pairStore listedTree).hub.store.tree exampleHome p loc) :
    ListCall ⟨pairClient 0, pairStore listedTree⟩ 0 (pairSession 0) exampleVolume exampleHome path p
      loc where
  running := met_listedTree.running
  linked := met_listedTree.linked 0
  volume := rfl
  parsed := hparse
  leads := hleads
  request := by
    have hlimit : ({} : StoreSettings).maxCommandLength.toNat = 4096 := by decide
    rw [met_listedTree.settings, hlimit, byteLength_toLine_list]
    omega
  unique := unique_listedTree
  texts := by
    have hnames : ∀ entry ∈ (pairStore listedTree).hub.store.tree.nodes,
        ∀ name ∈ entry.1.getLast?,
          name ∈ (["store_root", "ltptest", "d", "x|d|7|7", "é ", "up", "in"] ++
            longPath.segments).map encode := by
      rw [List.map_append, show longPath.segments.map encode = longPath.names from rfl,
        names_longPath, met_listedTree.nodes]
      decide +kernel
    refine Volume.hasTexts_of_nodes hnames (fun s hmem => ?_) loc
    obtain hmem | hmem := List.mem_append.1 hmem
    · have htexts : ∀ s ∈ ["store_root", "ltptest", "d", "x|d|7|7", "é ", "up", "in"],
          s ≠ "" ∧ '\n' ∉ s.toList := by
        decide
      exact htexts s hmem
    · exact Volume.text_of_isSegment ((VolumePath.isWritten_iff.1 isWritten_longPath).1 s hmem)
  count := by
    have hnodes : (pairStore listedTree).hub.store.tree.nodes.length < UInt64.size := by
      rw [met_listedTree.nodes]
      decide +kernel
    exact Nat.lt_of_le_of_lt (List.length_filterMap_le _ _) hnodes

end

/-! ## The call -/

variable {o : Online ServedStore} {line : Nat} {s : Session} {v : Volume} {home loc : Host.Location}
  {path : String} {p : VolumePath}

/-- A call that lists a directory inside the volume succeeds exactly when the host follows the path
to its end. Then it gives what the volume lists: one entry for each name in the directory, in the
order of the bytes of the names, each with what stands there. Nothing is changed, and the client is
linked as before. -/
theorem lists_of_listDirectory (h : ListCall o line s v home path p loc) :
    ((∃ entries, (listDirectory ServedStore.network path o).1 = .ok entries) ↔
      v.Followed o.network.hub.store.tree p) ∧
    ∀ entries, (listDirectory ServedStore.network path o).1 = .ok entries →
      Volume.Lists o.network.hub.store.tree loc entries ∧
      v.listDirectory o.network.hub.store.tree path = .ok entries ∧
      (listDirectory ServedStore.network path o).2.Steady line s.clearRenameSource ∧
      (listDirectory ServedStore.network path o).2.network.hub.store.tree =
        o.network.hub.store.tree := by
  have hsteady := h.linked.steady h.running
  have hpositive : Reply.isPositive ⟨ReplyCode.listing, Text.decimal
      ((Volume.listing o.network.hub.store.tree loc).map (·.render)).length⟩ = true := rfl
  refine ⟨⟨fun ⟨entries, hok⟩ => h.followed hok, fun hfollowed => ?_⟩, fun entries hok => ?_⟩
  · -- The store carries the request out, and the lines of its answer are read back as entries.
    rw [h.listDirectory_eq]
    obtain ⟨o', hexchange, -⟩ := hsteady.exchange_eq h.proper ⟨h.request, Nat.zero_le _⟩
      (h.execution_eq hfollowed) h.read_eq hpositive rfl
    rw [andThen_of_ok hexchange]
    exact ⟨_, h.entriesOf_eq⟩
  · -- What has succeeded is that same exchange.
    have hfollowed := h.followed hok
    rw [h.listDirectory_eq] at hok ⊢
    obtain ⟨response, hexchange, hentries⟩ := andThen_eq_ok hok
    obtain ⟨rfl, hafter, hcarried⟩ := hsteady.after_exchange h.proper hexchange
      (h.execution_eq hfollowed) h.read_eq hpositive rfl h.linked.mounted
    cases h.entriesOf_eq.symm.trans hentries
    exact ⟨h.lists, h.leads.listDirectory_eq h.parsed hfollowed, hafter, hcarried.network.tree⟩

theorem lists_of_listDirectory_link :
    ListCall ⟨pairClient 0, pairStore listedTree⟩ 0 (pairSession 0) exampleVolume exampleHome "/in"
        ⟨["in"]⟩ (exampleHome ++ [Text.encode "d"]) ∧
      (listDirectory ServedStore.network "/in" ⟨pairClient 0, pairStore listedTree⟩).1 =
        .ok [⟨"up", false, 2, 0⟩, ⟨"x|d|7|7", false, 3, 0⟩, ⟨"é ", true, 0, 0⟩] := by
  have htarget : (pairStore listedTree).hub.store.tree.target (exampleVolume.hostPath ⟨["in"]⟩) =
      .ok (exampleHome ++ [Text.encode "d"], .directory) := by
    decide +kernel
  have hparse : VolumePath.parse "/in" = .ok ⟨["in"]⟩ := by decide
  have hcall := listCall_listedTree hparse (by decide) (met_listedTree.seated.leadsInside_of_target
    (VolumePath.isProper_of_parse hparse) htarget (List.prefix_append _ _))
  -- The entries are computed in the order of the host; sorting them is left to `simp`.
  have hlisting : Volume.listing (pairStore listedTree).hub.store.tree
      (exampleHome ++ [Text.encode "d"]) =
        [⟨"up", false, 2, 0⟩, ⟨"x|d|7|7", false, 3, 0⟩, ⟨"é ", true, 0, 0⟩] := by
    have hentries : ((pairStore listedTree).hub.store.tree.children
        (exampleHome ++ [Text.encode "d"])).map (fun child =>
          Volume.listingEntry (pairStore listedTree).hub.store.tree
            (exampleHome ++ [Text.encode "d"]) child.1 child.2) =
        [⟨"x|d|7|7", false, 3, 0⟩, ⟨"é ", true, 0, 0⟩, ⟨"up", false, 2, 0⟩] := by
      decide +kernel
    refine (congrArg (List.mergeSort · fun a b => decide (a.name ≤ b.name)) hentries).trans ?_
    simp [List.mergeSort, List.MergeSort.Internal.splitInTwo]
  have hfollowed : exampleVolume.Followed (pairStore listedTree).hub.store.tree ⟨["in"]⟩ := by
    decide +kernel
  obtain ⟨hlists, hgives⟩ := lists_of_listDirectory hcall
  obtain ⟨entries, hok⟩ := hlists.2 hfollowed
  obtain ⟨-, hvolume, -⟩ := hgives entries hok
  refine ⟨hcall, ?_⟩
  rw [hcall.leads.listDirectory_eq hparse hfollowed, hlisting] at hvolume
  rw [hok, Except.ok.inj hvolume]

/-- A directory whose path is too long on the host is not listed. -/
theorem not_forall_listDirectory_eq_ok :
    ¬ ∀ (o : Online ServedStore) (line : Nat) (s : Session) (v : Volume) (home loc : Host.Location)
        (path : String) (p : VolumePath),
      ListCall o line s v home path p loc →
      ∃ entries, (listDirectory ServedStore.network path o).1 = .ok entries := by
  intro h
  have hdir : (pairStore listedTree).hub.store.tree.node? (exampleHome ++ longPath.names) =
      some .directory := by
    rw [met_listedTree.node?_eq, names_longPath]
    decide +kernel
  have hcall := listCall_listedTree parse_longPath (by rw [byteLength_longPath]; decide)
    (met_listedTree.seated.leadsInside (VolumePath.isProper_of_parse parse_longPath) hdir)
  obtain ⟨entries, hok⟩ := h _ _ _ _ _ _ _ _ hcall
  exact not_short_longPath (hcall.followed hok).written

end Client

end VolumeStore
