import VolumeStore.Proofs.Volume.Twins

/-!
# Operations see nothing but their volume

In two trees that mirror each other below the directory of a volume, each operation of the volume
answers the same, and the trees it leaves mirror each other again.
-/

namespace VolumeStore

def DirEntry.untimed (e : DirEntry) : DirEntry :=
  { e with mtime := 0 }

namespace Volume

open Host (Location Name IsEntryName FileId Alike Numbering Found maxLinks)
open Host.Tree (Mirrors StaysWithin Leads isTelling pathFailure?)

/-! ## Making directories -/

/-- Names lead to `home` in two trees that mirror each other below it. -/
structure Based (home : Location) (N : Numbering) (start start' : Location) (base : List Name)
    (t t' : Host.Tree) : Prop where
  mirrors : Mirrors home N t t'
  linkFree : t.LinkFree
  directory : t.node? home = some .directory
  leads : ∃ k, Leads t true maxLinks start base k (.node home .directory)
  leads' : ∃ k, Leads t' true maxLinks start' base k (.node home .directory)

namespace Based

variable {t t' : Host.Tree} {home start start' dir : Location} {N : Numbering} {name : Name}
  {base names : List Name}

theorem walkLinks_eq (h : Based home N start start' base t t')
    (hentry : ∀ name ∈ names, IsEntryName name) {follow : Bool}
    (hne : names ≠ [] ∨ follow = true) :
    t'.walkLinks follow maxLinks start' (base ++ names) =
      (t.walkLinks follow maxLinks start (base ++ names)).map (Found.renumber N) := by
  obtain ⟨k, hleads⟩ := h.leads
  obtain ⟨k', hleads'⟩ := h.leads'
  rw [hleads.walkLinks_append hne, hleads'.walkLinks_append hne]
  exact h.mirrors.walkLinks_eq h.linkFree (List.prefix_refl home) hentry _ _ _

theorem isDirectoryAt_eq (h : Based home N start start' base t t')
    (hentry : ∀ name ∈ names, IsEntryName name) :
    t'.isDirectoryAt start' (base ++ names) = t.isDirectoryAt start (base ++ names) := by
  unfold Host.Tree.isDirectoryAt
  rw [h.walkLinks_eq hentry (.inr rfl)]
  cases t.walkLinks true maxLinks start (base ++ names) with
  | error failure => rfl
  | ok found =>
    cases found with
    | vacant dir name => rfl
    | node loc node => cases node <;> rfl

theorem insert (h : Based home N start start' base t t') (hp : home <+: dir)
    (hfree : t.node? (dir ++ [name]) = none) :
    Based home N start start' base (t.insert (dir ++ [name]) .directory)
      (t'.insert (dir ++ [name]) .directory) := by
  have hb : Host.Below home (dir ++ [name]) := Host.below_of_prefix_concat hp
  have hfree' : t'.node? (dir ++ [name]) = none := by
    rw [h.mirrors.node?_eq hb, hfree]
    rfl
  -- The name was free, so all that stood before still stands.
  have hgrow : ∀ {t : Host.Tree}, t.node? (dir ++ [name]) = none → ∀ loc node,
      t.node? loc = some node → (t.insert (dir ++ [name]) .directory).node? loc = some node :=
    fun hfree _ _ => Host.Tree.node?_insert_of_some _ hb.ne_nil hfree
  obtain ⟨k, hleads⟩ := h.leads
  obtain ⟨k', hleads'⟩ := h.leads'
  have hchange : Host.Tree.ChangesOnly home N.known t (t.insert (dir ++ [name]) .directory) :=
    Host.Tree.changesOnly_insert_directory hb
  exact ⟨h.mirrors.insert_directory hb, hchange.linkFree h.linkFree, hgrow hfree _ _ h.directory,
    ⟨k, hleads.grow (hgrow hfree)⟩, ⟨k', hleads'.grow (hgrow hfree')⟩⟩

theorem alike_makeDirectory (h : Based home N start start' base t t')
    (hentry : ∀ name ∈ names, IsEntryName name) (hne : names ≠ []) :
    Alike (Based home N start start' base) (t.makeDirectory start (base ++ names))
      (t'.makeDirectory start' (base ++ names)) := by
  unfold Host.Tree.makeDirectory
  rw [h.walkLinks_eq hentry (.inl hne)]
  cases hwalk : t.walkLinks false maxLinks start (base ++ names) with
  | error failure => exact .error failure
  | ok found =>
    cases found with
    | node loc node => exact .error _
    | vacant dir name =>
      obtain ⟨k, hleads⟩ := h.leads
      rw [hleads.walkLinks_append (.inl hne)] at hwalk
      obtain ⟨hp, -, -, hfree⟩ := h.linkFree.below_of_walkLinks hentry h.directory hwalk
      exact .ok (h.insert hp hfree)

theorem makeUpwards (h : Based home N start start' base t t')
    (hentry : ∀ name ∈ names, IsEntryName name) :
    (t'.makeUpwards start' (base ++ names).reverse).1 =
        (t.makeUpwards start (base ++ names).reverse).1 ∧
      Based home N start start' base (t.makeUpwards start (base ++ names).reverse).2
        (t'.makeUpwards start' (base ++ names).reverse).2 := by
  -- The last directory is tried first; if the one above is missing, the shorter row comes next.
  induction names using List.reverseRecOn with
  | nil =>
    rw [List.append_nil]
    cases hrev : base.reverse with
    | nil => exact ⟨rfl, h⟩
    | cons last above =>
      have hnames : (last :: above).reverse = base := by rw [← hrev, List.reverse_reverse]
      obtain ⟨k, hleads⟩ := h.leads
      obtain ⟨k', hleads'⟩ := h.leads'
      have hdirectory : t'.isDirectoryAt start' (base ++ []) = t.isDirectoryAt start (base ++ []) :=
        h.isDirectoryAt_eq hentry
      rw [List.append_nil] at hdirectory
      simp only [Host.Tree.makeUpwards, hnames, hleads.makeDirectory, hleads'.makeDirectory]
      split
      next hkind => exact absurd hkind (by decide)
      · exact ⟨by rw [hdirectory], h⟩
  | append_singleton names last ih =>
    have hentry' : ∀ name ∈ names, IsEntryName name :=
      fun name hmem => hentry name (List.mem_append_left _ hmem)
    have hne : names ++ [last] ≠ [] := by simp
    have hnames : (last :: (base ++ names).reverse).reverse = base ++ (names ++ [last]) := by simp
    rw [← List.append_assoc, List.reverse_append, List.reverse_singleton, List.singleton_append]
    simp only [Host.Tree.makeUpwards, hnames]
    have hmake := h.alike_makeDirectory hentry hne
    generalize t.makeDirectory start (base ++ (names ++ [last])) = result at hmake ⊢
    generalize t'.makeDirectory start' (base ++ (names ++ [last])) = result' at hmake ⊢
    cases hmake with
    | ok hok => exact ⟨rfl, hok⟩
    | error failure =>
      by_cases hkind : failure.kind = .notFound
      · simp only [hkind, if_true]
        obtain ⟨hanswer, hbased⟩ := ih hentry'
        generalize t.makeUpwards start (base ++ names).reverse = above at hanswer hbased ⊢
        generalize t'.makeUpwards start' (base ++ names).reverse = above' at hanswer hbased ⊢
        obtain ⟨answer, u⟩ := above
        obtain ⟨answer', u'⟩ := above'
        obtain rfl : answer' = answer := hanswer
        cases answer' with
        | error failure => exact ⟨rfl, hbased⟩
        | ok _ =>
          -- The directory above was made in both trees, and the name is tried again.
          have hmake := hbased.alike_makeDirectory hentry hne
          have hdirectory := hbased.isDirectoryAt_eq hentry
          simp only at hmake hdirectory ⊢
          generalize u.makeDirectory start (base ++ (names ++ [last])) = result at hmake ⊢
          generalize u'.makeDirectory start' (base ++ (names ++ [last])) = result' at hmake ⊢
          cases hmake with
          | ok hok => exact ⟨rfl, hok⟩
          | error failure => exact ⟨by simp only [hdirectory], hbased⟩
      · simp only [hkind, if_false]
        exact ⟨by rw [h.isDirectoryAt_eq hentry], h⟩

end Based

/-- Two operations answer the same and leave trees that mirror each other. -/
structure Agree {α : Type} (home : Location) (N : Numbering) (bound : Nat)
    (r r' : Except VolumeError α × Host.Tree) : Prop where
  answer : r'.1 = r.1
  follows : Follows home N bound r.2 r'.2

variable {v : Volume} {t t' : Host.Tree} {p q : VolumePath} {path : String} {home : Location}
  {region : Location → Prop} {N : Numbering} {bound : Nat}

theorem agree_of_mirrors {α : Type} (h : Mirrors home N t t') (answer : Except VolumeError α) :
    Agree home N bound (answer, t) (answer, t') :=
  ⟨rfl, follows_of_mirrors h bound⟩

theorem Follows.agree {α : Type} (h : Follows home N bound t t') (answer : Except VolumeError α) :
    Agree home N bound (answer, t) (answer, t') :=
  ⟨rfl, h⟩

namespace Twins

theorem based (h : v.Twins region home N t t') :
    Based home N (v.start t) (v.start t') (v.base.filter isTelling) t t' := by
  obtain ⟨k, hr⟩ := exists_rooted h.left.target
  obtain ⟨k', hr'⟩ := exists_rooted h.right.target
  exact ⟨h.mirrors, h.left.linkFree, h.left.directory, ⟨k, hr.leads.filter_telling⟩,
    ⟨k', hr'.leads.filter_telling⟩⟩

theorem makeHostDirectories (h : v.Twins region home N t t') (hp : p.IsProper) :
    (t'.makeDirectories (v.hostPath p)).1 = (t.makeDirectories (v.hostPath p)).1 ∧
      Mirrors home N (t.makeDirectories (v.hostPath p)).2
        (t'.makeDirectories (v.hostPath p)).2 := by
  obtain ⟨k, hr⟩ := exists_rooted h.left.target
  cases hu : pathFailure? (v.hostPath p) with
  | some failure =>
    rw [makeDirectories_unusable hr.root_ne_nil hp hu,
      makeDirectories_unusable hr.root_ne_nil hp hu]
    exact ⟨rfl, h.mirrors⟩
  | none =>
    have hmake := h.based.makeUpwards hp.isEntryName
    simp only [Host.Tree.makeDirectories, if_neg (hostPath_ne_nil hr.root_ne_nil hp), hu,
      isAbsolute_hostPath hr.root_ne_nil hp, components_hostPath hr.root_ne_nil hp]
    exact ⟨hmake.1, hmake.2.mirrors⟩

/-! ## Operations -/

theorem makeDirectories (h : v.Twins region home N t t') (path : String) :
    Agree home N bound (v.makeDirectories t path) (v.makeDirectories t' path) := by
  unfold Volume.makeDirectories
  rw [h.confine_eq]
  cases hc : v.confine t path with
  | error error => exact agree_of_mirrors h.mirrors _
  | ok p =>
    have hp := isProper_of_confine hc
    -- What is in the way of a new directory is found by look-ups of the stages.
    have hstages : ∀ stage ∈ p.stages, stage.IsProper := fun stage hmem =>
      isProper_of_mem_upwards hp (List.mem_append_left _ (List.mem_reverse.2 hmem))
    simp only [h.obstacle?_eq hstages]
    split
    · exact agree_of_mirrors h.mirrors _
    · obtain ⟨hanswer, hmirrors⟩ := h.makeHostDirectories hp
      generalize t.makeDirectories (v.hostPath p) = result at hanswer hmirrors ⊢
      generalize t'.makeDirectories (v.hostPath p) = result' at hanswer hmirrors ⊢
      obtain ⟨answer, u⟩ := result
      obtain ⟨answer', u'⟩ := result'
      obtain rfl : answer' = answer := hanswer
      cases answer' <;> exact agree_of_mirrors hmirrors _

theorem createFile (h : v.Twins region home N t t') (path : String) (size : UInt64) :
    Agree home N t.contents.length (v.createFile t path size) (v.createFile t' path size) := by
  unfold Volume.createFile
  rw [h.confine_eq]
  cases hc : v.confine t path with
  | error error => exact agree_of_mirrors h.mirrors _
  | ok p =>
    have hp := isProper_of_confine hc
    simp only [h.requireParent_eq hp]
    split
    · exact agree_of_mirrors h.mirrors _
    · have hcreate := h.mirrors.alike_createFile (h.samePath hp)
      generalize t.createFile (v.hostPath p) = result at hcreate ⊢
      generalize t'.createFile (v.hostPath p) = result' at hcreate ⊢
      cases hcreate with
      | error failure => exact agree_of_mirrors h.mirrors _
      | @ok opened opened' hopened =>
        obtain ⟨handle, u⟩ := opened
        obtain ⟨handle', u'⟩ := opened'
        obtain ⟨N', hextends, hmirrors, hknown, rfl⟩ := hopened
        simp only at hmirrors hknown ⊢
        -- The new file gets its size in both trees or in none.
        split
        · exact Follows.agree ⟨N', hextends, hmirrors⟩ _
        · have hsize := Host.Handle.alike_setSize hmirrors hknown size.toNat
          generalize handle.setSize u size.toNat = result at hsize ⊢
          generalize (handle.renumber N').setSize u' size.toNat = result' at hsize ⊢
          cases hsize with
          | error failure => exact Follows.agree ⟨N', hextends, hmirrors⟩ _
          | ok hok => exact Follows.agree ⟨N', hextends, hok⟩ _

theorem appendFile (h : v.Twins region home N t t') (path : String) (data : List UInt8) :
    Agree home N t.contents.length (v.appendFile t path data) (v.appendFile t' path data) := by
  unfold Volume.appendFile
  rw [h.confine_eq]
  cases hc : v.confine t path with
  | error error => exact agree_of_mirrors h.mirrors _
  | ok p =>
    have hp := isProper_of_confine hc
    simp only [h.requireParent_eq hp, (h.samePath hp).isDirectory_eq]
    split
    · exact agree_of_mirrors h.mirrors _
    · split
      · exact agree_of_mirrors h.mirrors _
      · have hopen := h.mirrors.alike_openFile h.left.directory (h.samePath hp)
          { append := true } true
        generalize t.openFile (v.hostPath p) { append := true } true = result at hopen ⊢
        generalize t'.openFile (v.hostPath p) { append := true } true = result' at hopen ⊢
        cases hopen with
        | error failure => exact agree_of_mirrors h.mirrors _
        | @ok opened opened' hopened =>
          obtain ⟨handle, u⟩ := opened
          obtain ⟨handle', u'⟩ := opened'
          obtain ⟨N', hextends, hmirrors, hknown, rfl⟩ := hopened
          simp only at hmirrors hknown ⊢
          -- The size that is answered is read from the file just written.
          have hwrite := Host.Handle.write_renumber hmirrors hknown data
          have hfile : (handle.write u data).2.1.file = handle.file := by
            obtain ⟨⟨n, hmoved⟩, -⟩ := Host.Handle.write_cases handle u data
            rw [hmoved]
          generalize handle.write u data = result at hwrite hfile ⊢
          generalize (handle.renumber N').write u' data = result' at hwrite ⊢
          obtain ⟨answer, handle₁, u₁⟩ := result
          obtain ⟨answer', handle₁', u₁'⟩ := result'
          obtain rfl : answer' = answer := hwrite.answer
          obtain rfl : handle₁' = handle₁.renumber N' := hwrite.handle
          have hmirrors₁ : Mirrors home N' u₁ u₁' := hwrite.mirrors
          cases answer' with
          | error failure => exact Follows.agree ⟨N', hextends, hmirrors₁⟩ _
          | ok _ =>
            simp only at hfile ⊢
            rw [Host.Handle.file_renumber, hfile, hmirrors₁.content _ hknown]
            exact Follows.agree ⟨N', hextends, hmirrors₁⟩ _

/-! ## Removing and renaming -/

theorem clear (h : v.Twins region home N t t') {loc : Location} (hp : home <+: loc) :
    v.Twins region home N (t.clear loc) (t'.clear loc) := by
  have hleft : StaysWithin home N.known t (t.clear loc) :=
    ⟨Host.Tree.changesOnly_clear hp, h.left.wellFormed.clear loc⟩
  have hright : StaysWithin home N.known t' (t'.clear loc) :=
    ⟨Host.Tree.changesOnly_clear hp, h.right.wellFormed.clear loc⟩
  exact ⟨h.left.stays hleft, h.right.stays hright, h.workingDirectory, h.mirrors.clear loc⟩

theorem removeDirectory (h : v.Twins region home N t t') (path : String) (recursive : Bool) :
    Agree home N bound (v.removeDirectory t path recursive)
      (v.removeDirectory t' path recursive) := by
  unfold Volume.removeDirectory Host.Tree.entry
  rw [h.confine_eq]
  cases hc : v.confine t path with
  | error error => exact agree_of_mirrors h.mirrors _
  | ok p =>
    have hp := h.samePath (isProper_of_confine hc)
    simp only [hp.findEntry_eq]
    split
    · exact agree_of_mirrors h.mirrors _
    · cases t.findEntry false (v.hostPath p) with
      | error failure => exact agree_of_mirrors h.mirrors _
      | ok found =>
        obtain ⟨loc, node⟩ := found
        cases node with
        | file id => exact agree_of_mirrors h.mirrors _
        | link target => exact agree_of_mirrors h.mirrors _
        | socket => exact agree_of_mirrors h.mirrors _
        | directory =>
          simp only [Except.map, Host.Node.renumber]
          split
          · -- The directory is looked up again once it is empty.
            obtain ⟨hanswer, hmirrors⟩ := h.mirrors.removeAll hp fun loc hin =>
              (h.clear hin).samePath (isProper_of_confine hc)
            generalize t.removeAll (v.hostPath p) = result at hanswer hmirrors ⊢
            generalize t'.removeAll (v.hostPath p) = result' at hanswer hmirrors ⊢
            obtain ⟨answer, u⟩ := result
            obtain ⟨answer', u'⟩ := result'
            obtain rfl : answer' = answer := hanswer
            cases answer' <;> exact agree_of_mirrors hmirrors _
          · have hremove := h.mirrors.alike_removeEmpty hp
            generalize t.removeEmpty (v.hostPath p) = result at hremove ⊢
            generalize t'.removeEmpty (v.hostPath p) = result' at hremove ⊢
            cases hremove with
            | error failure => exact agree_of_mirrors h.mirrors _
            | ok hok => exact agree_of_mirrors hok _

theorem deleteFile (h : v.Twins region home N t t') (path : String) :
    Agree home N bound (v.deleteFile t path) (v.deleteFile t' path) := by
  unfold Volume.deleteFile Host.Tree.entry
  rw [h.confine_eq]
  cases hc : v.confine t path with
  | error error => exact agree_of_mirrors h.mirrors _
  | ok p =>
    have hp := h.samePath (isProper_of_confine hc)
    have hunlink := h.mirrors.alike_unlink hp
    simp only [hp.findEntry_eq]
    cases t.findEntry false (v.hostPath p) with
    | error failure => exact agree_of_mirrors h.mirrors _
    | ok found =>
      obtain ⟨loc, node⟩ := found
      cases node with
      | directory => exact agree_of_mirrors h.mirrors _
      | _ =>
        -- A file, a link or a socket is taken away.
        simp only [Except.map, Host.Node.renumber]
        generalize t.unlink (v.hostPath p) = result at hunlink ⊢
        generalize t'.unlink (v.hostPath p) = result' at hunlink ⊢
        cases hunlink with
        | error failure => exact agree_of_mirrors h.mirrors _
        | ok hok => exact agree_of_mirrors hok _

theorem rename (h : v.Twins region home N t t') (source target : String) :
    Agree home N bound (v.rename t source target) (v.rename t' source target) := by
  unfold Volume.rename
  rw [h.confine_eq, h.confine_eq]
  cases hc : v.confine t source with
  | error error => exact agree_of_mirrors h.mirrors _
  | ok p =>
    cases hc' : v.confine t target with
    | error error => exact agree_of_mirrors h.mirrors _
    | ok q =>
      have hp := isProper_of_confine hc
      have hq := isProper_of_confine hc'
      simp only [(h.samePath hp).exists?_eq, h.requireParent_eq hq]
      -- All checks come out alike on both sides, and only the last step changes the tree.
      split
      · exact agree_of_mirrors h.mirrors _
      · split
        · exact agree_of_mirrors h.mirrors _
        · split
          · exact agree_of_mirrors h.mirrors _
          · split
            · exact agree_of_mirrors h.mirrors _
            · have hrename := h.mirrors.alike_rename (h.samePath hp) (h.samePath hq)
              generalize t.rename (v.hostPath p) (v.hostPath q) = result at hrename ⊢
              generalize t'.rename (v.hostPath p) (v.hostPath q) = result' at hrename ⊢
              cases hrename with
              | error failure => exact agree_of_mirrors h.mirrors _
              | ok hok => exact agree_of_mirrors hok _

/-! ## Opening -/

theorem openFile (h : v.Twins region home N t t') (path : String) (flags : OpenFlags) :
    ∃ N', N.Extends N' t.contents.length ∧
      Mirrors home N' (v.openFile t path flags).2 (v.openFile t' path flags).2 ∧
      (v.openFile t' path flags).1 =
        (v.openFile t path flags).1.map (fun r => (r.1.renumber N', r.2)) ∧
      ∀ handle path', (v.openFile t path flags).1 = .ok (handle, path') →
        N'.known handle.file := by
  -- A refusal changes nothing, so the numbering can stay as it is.
  have hsame : ∀ error : VolumeError, ∃ N', N.Extends N' t.contents.length ∧ Mirrors home N' t t' ∧
      (.error error : Except VolumeError (Host.Handle × String)) =
        (Except.error error).map (fun r : Host.Handle × String => (r.1.renumber N', r.2)) ∧
      ∀ (handle : Host.Handle) (path' : String), Except.error error = .ok (handle, path') →
        N'.known handle.file :=
    fun error => ⟨N, .refl N _, h.mirrors, rfl, nofun⟩
  unfold Volume.openFile
  rw [h.confine_eq]
  cases hc : v.confine t path with
  | error error => exact hsame error
  | ok p =>
    have hp := isProper_of_confine hc
    simp only [h.requireOpenable_eq hp]
    cases v.requireOpenable t p flags.create with
    | error error => exact hsame error
    | ok _ =>
      have hopen := h.mirrors.alike_openFile h.left.directory (h.samePath hp) (accessOf flags)
        flags.create
      simp only
      -- The file may be a new one: then the numbering is extended by it.
      generalize t.openFile (v.hostPath p) (accessOf flags) flags.create = result at hopen ⊢
      generalize t'.openFile (v.hostPath p) (accessOf flags) flags.create = result' at hopen ⊢
      cases hopen with
      | error failure => exact hsame _
      | @ok opened opened' hopened =>
        obtain ⟨handle, u⟩ := opened
        obtain ⟨handle', u'⟩ := opened'
        obtain ⟨N', hextends, hmirrors, hknown, rfl⟩ := hopened
        simp only at hmirrors hknown ⊢
        split
        -- Truncating changes a file that both sides know by now.
        · have hsize := Host.Handle.alike_setSize hmirrors hknown 0
          generalize handle.setSize u 0 = result at hsize ⊢
          generalize (handle.renumber N').setSize u' 0 = result' at hsize ⊢
          cases hsize with
          | error failure => exact ⟨N', hextends, hmirrors, rfl, nofun⟩
          | ok hok =>
            refine ⟨N', hextends, hok, rfl, fun handle' path' he => ?_⟩
            cases he
            exact hknown
        · refine ⟨N', hextends, hmirrors, rfl, fun handle' path' he => ?_⟩
          cases he
          exact hknown

/-! ## Looking -/

theorem listingEntry_eq (h : Mirrors home N t t') {loc : Location} (hp : home <+: loc) (name : Name)
    {node : Host.Node} (hknown : ∀ id, node = .file id → N.known id) :
    (listingEntry t' loc name (node.renumber N)).untimed =
      (listingEntry t loc name node).untimed := by
  have hsize := congrArg StatRecord.size
    (h.describe_eq (hp.trans (List.prefix_append loc [name])) hknown)
  unfold listingEntry DirEntry.untimed
  simp only [Host.Node.renumber_eq_directory_iff]
  rw [show (t'.describe (loc ++ [name]) (node.renumber N)).size = _ from hsize]
  rfl

theorem alike_stat (h : v.Twins region home N t t') (path : String) :
    Alike (fun record record' => record'.unstamped = record.unstamped) (v.stat t path)
      (v.stat t' path) := by
  unfold Volume.stat Host.Tree.entry
  rw [h.confine_eq]
  cases hc : v.confine t path with
  | error error => exact .error error
  | ok p =>
    have hp := h.samePath (isProper_of_confine hc)
    simp only [bind, Except.bind, hp.findEntry_eq]
    cases hentry : t.findEntry false (v.hostPath p) with
    | error failure =>
      simp only [Except.map]
      split <;> exact .error _
    | ok found =>
      obtain ⟨loc, node⟩ := found
      obtain ⟨hin, hnode⟩ := hp.inside_entry hentry
      refine .ok (h.mirrors.describe_eq hin fun id (he : node = .file id) => ?_)
      subst he
      exact h.mirrors.known_of_node? (h.left.below_of_file hin hnode) hnode

theorem alike_listDirectory (h : v.Twins region home N t t') (path : String) :
    Alike (fun entries entries' => entries'.map DirEntry.untimed = entries.map DirEntry.untimed)
      (v.listDirectory t path) (v.listDirectory t' path) := by
  unfold Volume.listDirectory Host.Tree.target
  rw [h.confine_eq]
  cases hc : v.confine t path with
  | error error => exact .error error
  | ok p =>
    have hp := h.samePath (isProper_of_confine hc)
    simp only [bind, Except.bind, hp.findEntry_eq]
    cases hentry : t.findEntry true (v.hostPath p) with
    | error failure => exact .error _
    | ok found =>
      obtain ⟨loc, node⟩ := found
      have hin := (hp.inside_entry hentry).1
      cases node with
      | file id => exact .error _
      | link target => exact .error _
      | socket => exact .error _
      | directory =>
        refine .ok ?_
        -- Sorting looks at the names only, so the times can be dropped before it.
        have hsort : ∀ entries : List DirEntry,
            (entries.mergeSort fun a b => decide (a.name ≤ b.name)).map DirEntry.untimed =
              (entries.map DirEntry.untimed).mergeSort fun a b => decide (a.name ≤ b.name) :=
          fun entries => List.map_mergeSort fun _ _ _ _ => rfl
        rw [hsort, hsort, h.mirrors.children_eq hin, List.map_map, List.map_map, List.map_map]
        congr 1
        refine List.map_congr_left fun (name, node) hmem => ?_
        refine listingEntry_eq h.mirrors hin name fun id he => ?_
        subst he
        exact h.mirrors.known_of_child hin hmem

end Twins

/-! ## Reading and writing -/

theorem readAt_eq (h : Mirrors home N t t') {handle : Host.Handle} (hid : N.known handle.file)
    (offset : UInt64) (len : Nat) :
    readAt t' (handle.renumber N) offset len =
      ((readAt t handle offset len).1.renumber N, (readAt t handle offset len).2) := by
  unfold readAt
  rw [Host.Handle.readAt_renumber h hid]

theorem writeAt_renumber (h : Mirrors home N t t') {handle : Host.Handle}
    (hid : N.known handle.file) (offset : UInt64) (data : List UInt8) (append : Bool) :
    Host.Handle.WritesAlike home N (writeAt t handle offset data append)
      (writeAt t' (handle.renumber N) offset data append) := by
  unfold writeAt
  cases append with
  | true =>
    have hwrite := Host.Handle.write_renumber h hid data
    exact ⟨congrArg onHost hwrite.answer, hwrite.handle, hwrite.mirrors⟩
  | false =>
    have hwrite := Host.Handle.writeAt_renumber h hid offset.toNat data
    exact ⟨congrArg onHost hwrite.answer, hwrite.handle, hwrite.mirrors⟩

end Volume

end VolumeStore
