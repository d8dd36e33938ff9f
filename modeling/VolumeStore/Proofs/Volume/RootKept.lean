import VolumeStore.Proofs.Host.Way
import VolumeStore.Proofs.Volume.Containment

/-!
# The root of a volume during its operations

No operation removes, moves or replaces the directory to which the root of a volume leads. But the
root is a path, and the entries on its way can be entries of the volume: a link that the root itself
is, or one behind a detour through the volume. The root leads to the same directory at every moment,
exactly as long as no operation takes such an entry away or puts another one in its place.
-/

namespace VolumeStore.Volume

open Host (Location Name Below maxLinks)
open Host.Tree (Reads Leads Strays Thinned)

def OnWay (v : Volume) (t : Host.Tree) (loc : Location) : Prop :=
  Reads t loc maxLinks (v.start t) v.base

/-- The operation takes an entry away that the root of the volume goes through, with a directory of
the volume or by its own name, or changes one by a rename. Since a link may take the place of
another one, it then matters where the names of the root lead behind it. -/
def Diverts (v : Volume) (home : Location) (t : Host.Tree) : Call → Prop
  | .removeDirectory path recursive => ∃ loc, v.OnWay t loc ∧ Below home loc ∧
      (v.removeDirectory t path recursive).2.node? loc = none
  | .deleteFile path => ∃ p loc node, v.confine t path = .ok p ∧
      t.entry (v.hostPath p) = .ok (loc, node) ∧ node ≠ .directory ∧ v.OnWay t loc
  | .rename source target => ∃ p q a b, v.confine t source = .ok p ∧
      v.confine t target = .ok q ∧ (v.rename t source target).1 = .ok q.render ∧
      t.renamePlaces? (v.hostPath p) (v.hostPath q) = some (a, b) ∧
      Strays t (t.move a b) home maxLinks (v.start t) v.base
  | _ => False

def Call.isMaking : Call → Bool
  | .removeDirectory _ _ | .deleteFile _ | .rename _ _ => false
  | _ => true

variable {v : Volume} {t t' : Host.Tree} {p q : VolumePath} {path : String}
  {home loc a b : Location} {k : Nat} {s : Files} {call : Call}

theorem start_eq (h : t'.home = t.home) : v.start t' = v.start t := by
  rw [start, start, h]

namespace Seated

/-! ## The way to the directory -/

theorem target_of_onWay (h : v.Seated t home) (hworking : t'.home = t.home)
    (hsame : ∀ loc, v.OnWay t loc → t'.node? loc = t.node? loc) :
    t'.target v.root = .ok (home, .directory) := by
  obtain ⟨k, hr⟩ := exists_rooted h.target
  have hleads := hr.leads.of_reads hsame
  rw [← start_eq hworking] at hleads
  exact Rooted.target_root ⟨hr.usable, hleads⟩

theorem ne_none_of_onWay (h : v.Seated t home) (hway : v.OnWay t loc) : t.node? loc ≠ none := by
  obtain ⟨k, hr⟩ := exists_rooted h.target
  exact hr.leads.ne_none_of_reads (fun _ _ hn => hn) hway

theorem target_thinned_iff (h : v.Seated t home) (hthin : Thinned t t')
    (hworking : t'.home = t.home) :
    t'.target v.root = .ok (home, .directory) ↔ ∀ loc, v.OnWay t loc → t'.node? loc ≠ none := by
  constructor
  · intro htarget loc hway
    obtain ⟨k, hr⟩ := exists_rooted htarget
    have hleads := hr.leads
    rw [start_eq hworking] at hleads
    refine hleads.ne_none_of_reads (fun loc node hn => ?_) hway
    rw [← hthin.same loc (by simp [hn]), hn]
  · exact fun hne => h.target_of_onWay hworking fun loc hway => hthin.same loc (hne loc hway)

/-! ## Operations that take nothing away -/

theorem of_adds (h : v.Seated t home) (hadds : Adds v home path t t') : v.Seated t' home where
  connected := hadds.connected
  target := h.target_of_onWay hadds.workingDirectory fun loc hway => by
    obtain ⟨node, hnode⟩ := Option.ne_none_iff_exists'.1 (h.ne_none_of_onWay hway)
    rw [hnode, hadds.kept loc node hnode]
  directory := hadds.kept home _ h.directory

theorem adds_perform (h : v.Seated s.tree home) (hcall : call.isMaking = true) :
    ∃ path, Adds v home path s.tree (v.perform s call).tree := by
  cases call with
  | makeDirectories path => exact ⟨path, h.adds_makeDirectories path⟩
  | createFile path size => exact ⟨path, h.adds_of_writes (createFile_writes v s.tree path size)⟩
  | appendFile path data => exact ⟨path, h.adds_of_writes (appendFile_writes v s.tree path data)⟩
  | openFile path flags =>
    have hadds := h.adds_of_writes (openFile_writes v s.tree path flags)
    refine ⟨path, ?_⟩
    simp only [Volume.perform]
    split
    next heq => rwa [heq] at hadds
    next heq => rwa [heq] at hadds
  -- A write adds no name, so any path will do.
  | writeAt file offset data append =>
    refine ⟨"", ?_⟩
    simp only [Volume.perform]
    split
    · exact .refl h.connected
    next handle hfile =>
      exact (Adds.refl h.connected).refilled
        (writeAt_cases s.tree handle offset data append).2
  | removeDirectory path recursive => cases hcall
  | deleteFile path => cases hcall
  | rename source target => cases hcall

/-! ## Removing -/

theorem removeDirectory_iff (h : v.Seated t home) (path : String) (recursive : Bool) :
    (v.removeDirectory t path recursive).2.target v.root = .ok (home, .directory) ↔
      ¬ v.Diverts home t (.removeDirectory path recursive) := by
  have hdrops := h.drops_of_removes (removeDirectory_removes v t path recursive)
  rw [h.target_thinned_iff hdrops.toThinned hdrops.workingDirectory]
  constructor
  · rintro hall ⟨loc, hway, -, hgone⟩
    exact hall loc hway hgone
  · intro hno loc hway hgone
    refine hno ⟨loc, hway, ?_, hgone⟩
    by_contra hout
    rw [hdrops.outside loc hout] at hgone
    exact h.ne_none_of_onWay hway hgone

theorem deleteFile_iff (h : v.Seated t home) (path : String) :
    (v.deleteFile t path).2.target v.root = .ok (home, .directory) ↔
      ¬ v.Diverts home t (.deleteFile path) := by
  constructor
  · rintro htarget ⟨p, loc, node, hc, hentry, hnode, hway⟩
    obtain ⟨hne, -⟩ := h.gone_of_entry hentry hnode
    rw [deleteFile_of_entry hc hentry hnode] at htarget
    refine (h.target_thinned_iff (Host.Tree.thinned_remove t hne) rfl).1 htarget loc hway ?_
    rw [Host.Tree.node?_remove t hne, if_pos List.prefix_rfl]
  · intro hno
    obtain hsame | ⟨p, loc, node, hc, hentry, hnode, hremove⟩ := deleteFile_cases v t path
    · rw [hsame]
      exact h.target
    · obtain ⟨hne, hgone⟩ := h.gone_of_entry hentry hnode
      rw [hremove, h.target_thinned_iff (Host.Tree.thinned_remove t hne) rfl]
      intro loc' hway
      have hstands := h.ne_none_of_onWay hway
      rw [Host.Tree.node?_remove t hne, if_neg]
      · exact hstands
      -- Nothing stands below the entry, so what is lost with it is the entry itself.
      · intro hp
        obtain rfl := hgone loc' hp hstands
        exact hno ⟨p, loc', node, hc, hentry, hnode, hway⟩

/-! ## Renaming -/

theorem not_isPrefix_of_takes (h : v.Seated t home) (ht : v.Takes t home p q a b) :
    ¬ a <+: home ∧ ¬ b <+: home := by
  -- A link would stand at or above the directory.
  have hlink : ∀ {loc : Location},
      (¬ Below home loc → ∃ target, t.node? loc = some (.link target)) → ¬ loc <+: home := by
    intro loc hlink hp
    have hdirectory := h.connected.directory_of_prefix hp h.directory
    obtain ⟨target, htarget⟩ := hlink fun hb => hb.2 (hb.1.eq_of_length_le hp.length_le).symm
    rw [hdirectory] at htarget
    cases htarget
  exact ⟨hlink ht.source, hlink ht.target⟩

theorem rename_iff (h : v.Seated t home) (source target : String) :
    (v.rename t source target).2.target v.root = .ok (home, .directory) ↔
      ¬ v.Diverts home t (.rename source target) := by
  constructor
  · rintro htarget ⟨p, q, a, b, hc, hc', hok, hplaces, hstrays⟩
    obtain ⟨p', q', hcp, hcq, hp, hq, -, hrename⟩ := rename_eq_ok hok
    cases hc.symm.trans hcp
    cases hc'.symm.trans hcq
    obtain ⟨hnone, -⟩ | ⟨a', b', htakes, hmove⟩ := h.takes_of_rename hc hc' hp hq hrename
    · rw [hnone] at hplaces
      cases hplaces
    · cases hplaces.symm.trans htakes.places
      -- Names that have gone astray do not lead to the directory.
      rw [hmove] at htarget
      obtain ⟨k, hr⟩ := exists_rooted htarget
      exact hstrays.not_leads k hr.leads
  · intro hno
    obtain hsame | ⟨p, q, a, b, hc, hc', hok, htakes, hmove⟩ := h.rename_cases source target
    · rw [hsame]
      exact h.target
    · obtain ⟨k, hr⟩ := exists_rooted h.target
      rw [hmove]
      -- The names of the root are followed in both trees at once.
      obtain ⟨k', hleads⟩ | hstrays := hr.leads.leads_or_strays
        fun place hstood hmoved => htakes.directory_of_move h.connected hstood hmoved
      · exact Rooted.target_root ⟨hr.usable, hleads⟩
      · exact absurd ⟨p, q, a, b, hc, hc', hok, htakes.places, hstrays⟩ hno

/-! ## Rows of operations -/

theorem directory_perform (h : v.Seated s.tree home) (call : Call) :
    (v.perform s call).tree.Connected ∧ (v.perform s call).tree.node? home = some .directory := by
  have hmaking : call.isMaking = true → (v.perform s call).tree.Connected ∧
      (v.perform s call).tree.node? home = some .directory := by
    intro hcall
    obtain ⟨path, hadds⟩ := h.adds_perform hcall
    exact ⟨hadds.connected, hadds.kept home _ h.directory⟩
  -- Making and writing leave all entries; three operations take some away.
  cases call with
  | removeDirectory path recursive =>
    have hdrops := h.drops_of_removes (removeDirectory_removes v s.tree path recursive)
    exact ⟨h.connected.of_thinned hdrops.toThinned,
      (hdrops.outside home (Host.not_below_self home)).trans h.directory⟩
  | deleteFile path =>
    simp only [Volume.perform]
    obtain hsame | ⟨p, loc, node, hc, hentry, hnode, hremove⟩ := deleteFile_cases v s.tree path
    · rw [hsame]
      exact ⟨h.connected, h.directory⟩
    · obtain ⟨hne, -⟩ := h.gone_of_entry hentry hnode
      rw [hremove, Host.Tree.node?_remove s.tree hne,
        if_neg (h.not_isPrefix_of_entry hentry hnode h.directory)]
      exact ⟨h.connected.of_thinned (Host.Tree.thinned_remove s.tree hne), h.directory⟩
  | rename source target =>
    simp only [Volume.perform]
    obtain hsame | ⟨p, q, a, b, -, -, -, htakes, hmove⟩ := h.rename_cases source target
    · rw [hsame]
      exact ⟨h.connected, h.directory⟩
    · obtain ⟨ha, hb⟩ := h.not_isPrefix_of_takes htakes
      rw [hmove, Host.Tree.node?_move s.tree htakes.ne_nil htakes.apart htakes.apart', if_neg hb,
        if_neg ha]
      exact ⟨htakes.connected h.connected, h.directory⟩
  | _ => exact hmaking rfl

theorem target_perform_iff (h : v.Seated s.tree home) (call : Call) :
    (v.perform s call).tree.target v.root = .ok (home, .directory) ↔
      ¬ v.Diverts home s.tree call := by
  have hmaking : call.isMaking = true →
      (v.perform s call).tree.target v.root = .ok (home, .directory) := by
    intro hcall
    obtain ⟨path, hadds⟩ := h.adds_perform hcall
    exact (h.of_adds hadds).target
  cases call with
  | removeDirectory path recursive => exact h.removeDirectory_iff path recursive
  | deleteFile path => exact h.deleteFile_iff path
  | rename source target => exact h.rename_iff source target
  | _ => exact iff_of_true (hmaking rfl) id

theorem perform (h : v.Seated s.tree home) (hno : ¬ v.Diverts home s.tree call) :
    v.Seated (v.perform s call).tree home :=
  ⟨(h.directory_perform call).1, (h.target_perform_iff call).2 hno, (h.directory_perform call).2⟩

end Seated

/-- Whatever the tree and the links on the way, the root of a volume leads to the same directory at
every moment of a row of operations, exactly if none of them diverts it. -/
theorem target_eq_iff_not_diverts (v : Volume) (t : Host.Tree) (home : Location)
    (hconnected : t.Connected) (htarget : t.target v.root = .ok (home, .directory))
    (hdirectory : t.node? home = some .directory) (calls : List Call) :
    (∀ before, before <+: calls →
        (v.performAll { tree := t } before).tree.target v.root = .ok (home, .directory)) ↔
      ∀ before call, before ++ [call] <+: calls →
        ¬ v.Diverts home (v.performAll { tree := t } before).tree call := by
  have h : v.Seated t home := ⟨hconnected, htarget, hdirectory⟩
  exact forall_isPrefix_foldl_iff (fun s : Files => v.Seated s.tree home)
    (fun s => s.tree.target v.root = .ok (home, .directory))
    (fun s call => v.Diverts home s.tree call) (fun _ h => h.target)
    (fun _ _ h hno => h.perform hno)
    (fun _ call h hbad hkept => (h.target_perform_iff call).1 hkept hbad) h calls

/-! ## A root that is a link -/

section LinkedRoot

open Text (encode)

def linkedRoot : Host.Tree where
  nodes := [([encode "real"], .directory), ([encode "vol"], .link (encode "real"))]

theorem connected_linkedRoot : linkedRoot.Connected :=
  (Host.Tree.wellFormed_of_nodes (by decide +kernel) (by decide +kernel)).toConnected

theorem target_eq_iff_not_diverts_linkedRoot :
    linkedRoot.Connected ∧
      linkedRoot.target (.ofString "vol") = .ok ([encode "real"], .directory) ∧
      linkedRoot.node? [encode "real"] = some .directory ∧
      ((∀ before, before <+: [Call.makeDirectories "/d", .deleteFile "/"] →
          (performAll ⟨.ofString "vol"⟩ { tree := linkedRoot } before).tree.target
            (.ofString "vol") = .ok ([encode "real"], .directory)) ↔
        ∀ before call, before ++ [call] <+: [Call.makeDirectories "/d", .deleteFile "/"] →
          ¬ Diverts ⟨.ofString "vol"⟩ [encode "real"]
            (performAll ⟨.ofString "vol"⟩ { tree := linkedRoot } before).tree call) :=
  ⟨connected_linkedRoot, by decide +kernel, by decide +kernel,
    target_eq_iff_not_diverts ⟨.ofString "vol"⟩ linkedRoot [encode "real"] connected_linkedRoot
      (by decide +kernel) (by decide +kernel) _⟩

/-- Not every row of operations leaves the root where it leads: deleting the top of the volume
deletes the link that the root is. -/
theorem not_forall_target_eq :
    ¬ ∀ (v : Volume) (t : Host.Tree) (home : Location) (calls : List Call), t.Connected →
      t.target v.root = .ok (home, .directory) → t.node? home = some .directory →
      (v.performAll { tree := t } calls).tree.target v.root = .ok (home, .directory) := by
  intro h
  have hkept := h ⟨.ofString "vol"⟩ linkedRoot [encode "real"] [.deleteFile "/"]
    connected_linkedRoot (by decide +kernel) (by decide +kernel)
  have hlost : (performAll ⟨.ofString "vol"⟩ { tree := linkedRoot } [.deleteFile "/"]).tree.target
      (.ofString "vol") = .error .noEntry := by
    decide +kernel
  rw [hlost] at hkept
  cases hkept

end LinkedRoot

end VolumeStore.Volume
