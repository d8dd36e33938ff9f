import VolumeStore.Error
import VolumeStore.Proofs.Volume.Creation
import VolumeStore.Proofs.Volume.CutOff
import VolumeStore.Proofs.Volume.Removal
import VolumeStore.Proofs.Volume.Renaming

/-!
# Refusals that name their cause

In a volume without links, an operation is refused for what stands at its paths and on the way to
them, and the error names it: what is missing, of the wrong type, there already or not empty. But
some operations do not tell a path that is cut off from a failure of the host, and pass on what the
host says.
-/

namespace VolumeStore

open Host (Location Name)
open Host.Tree (isOk_entry_of_target)

theorem Host.Tree.unlink_of_entry {t : Tree} {r : Path} {loc : Location} {node : Node}
    (hentry : t.entry r = .ok (loc, node)) (hnode : node ≠ .directory) :
    t.unlink r = .ok (t.remove loc) := by
  unfold unlink
  rw [hentry]
  cases node with
  | directory => exact absurd rfl hnode
  | _ => rfl

namespace Volume

/-! ## Errors and what they are about -/

/-- The path is a stage of one of these paths, or one of them itself. -/
def IsStage (ps : List VolumePath) (stage : VolumePath) : Prop :=
  ∃ p ∈ ps, stage.segments <+: p.segments

/-- The error of an operation on these paths says what is the case in the tree. -/
inductive Accounts (t : Host.Tree) (home : Location) (ps : List VolumePath) :
    VolumeError → Prop where
  | fileNotFound {stage} (hstage : IsStage ps stage)
      (hnone : t.node? (home ++ stage.names) = none) :
      Accounts t home ps (.fileNotFound stage.render)
  | directoryNotFound {stage} (hstage : IsStage ps stage)
      (hnone : t.node? (home ++ stage.names) = none) :
      Accounts t home ps (.directoryNotFound stage.render)
  | notADirectory {stage node} (hstage : IsStage ps stage)
      (hnode : t.node? (home ++ stage.names) = some node) (hother : node ≠ .directory) :
      Accounts t home ps (.notADirectory stage.render)
  | isADirectory {stage} (hstage : IsStage ps stage)
      (hdir : t.node? (home ++ stage.names) = some .directory) :
      Accounts t home ps (.isADirectory stage.render)
  | fileAlreadyExists {stage node} (hstage : IsStage ps stage)
      (hnode : t.node? (home ++ stage.names) = some node) :
      Accounts t home ps (.fileAlreadyExists stage.render)
  | directoryNotEmpty {stage name} (hstage : IsStage ps stage)
      (hname : t.node? (home ++ stage.names ++ [name]) ≠ none) :
      Accounts t home ps (.directoryNotEmpty stage.render)
  | busy (htop : VolumePath.top ∈ ps) : Accounts t home ps (.busy VolumePath.top.render)
  | intoItself {p q} (hps : ps = [p, q]) (hbelow : p.segments <+: q.segments ∧ q ≠ p) :
      Accounts t home ps (.invalidPath (.intoItself p.render))

/-- What an operation comes to. It is done, or it is refused with an error that says what is the
case in the tree, or it passes on what the host says of a path that is cut off. The last happens
where `halts` says. -/
inductive Ends {α : Type} (t : Host.Tree) (home : Location) (ps : List VolumePath) (halts : Prop)
    (result : Except VolumeError α) : Prop where
  | done {value : α} (hgo : ¬ halts) (h : result = .ok value)
  | named {error : VolumeError} (hgo : ¬ halts) (h : result = .error error)
      (haccounts : Accounts t home ps error)
  | halted (hhalts : halts) (h : result = .error (.host .notDirectory))

variable {v : Volume} {t : Host.Tree} {p q : VolumePath} {ps : List VolumePath}
  {path source target : String} {home : Location} {node : Host.Node} {size : UInt64}

theorem IsStage.self (hmem : p ∈ ps) : IsStage ps p :=
  ⟨p, hmem, List.prefix_rfl⟩

theorem Accounts.notTaken {error : VolumeError} (h : Accounts t home ps error) :
    error.replyCode.1 = ReplyCode.notTaken := by
  cases h <;> rfl

namespace Ends

variable {α : Type} {halts : Prop} {result : Except VolumeError α}

/-- Without a further reason `fails` for which the operation fails on the host, its errors say what
is the case unless it halts. -/
theorem settled {fails : Prop} (h : Ends t home ps halts result) (hno : ¬ fails) :
    ((∀ error, result = .error error → Accounts t home ps error) ↔ ¬ halts ∧ ¬ fails) ∧
      (halts → result = .error (.host .notDirectory)) ∧
      (fails → ∃ failure, result = .error (.host failure)) := by
  cases h with
  | done hgo h =>
    subst h
    exact ⟨⟨fun _ => ⟨hgo, hno⟩, fun _ => nofun⟩, fun hhalts => absurd hhalts hgo,
      fun hfails => absurd hfails hno⟩
  | named hgo h haccounts =>
    subst h
    refine ⟨⟨fun _ => ⟨hgo, hno⟩, fun _ error herror => ?_⟩, fun hhalts => absurd hhalts hgo,
      fun hfails => absurd hfails hno⟩
    exact Except.error.inj herror ▸ haccounts
  | halted hhalts h =>
    subst h
    exact ⟨⟨fun hnamed => (nomatch hnamed _ rfl), fun hgo => absurd hhalts hgo.1⟩, fun _ => rfl,
      fun hfails => absurd hfails hno⟩

theorem congr {halts' : Prop} (h : Ends t home ps halts result) (hiff : halts ↔ halts') :
    Ends t home ps halts' result := by
  rwa [hiff] at h

theorem after {check : Except VolumeError Unit} (h : Ends t home ps halts check)
    (herror : ∀ error, check = .error error → result = .error error)
    (hok : check = .ok () → ¬ halts → Ends t home ps halts result) :
    Ends t home ps halts result := by
  cases h with
  | done hgo h => exact hok h hgo
  | named hgo h haccounts => exact .named hgo (herror _ h) haccounts
  | halted hhalts h => exact .halted hhalts (herror _ h)

end Ends

namespace Plain

/-! ## Looking for entries and for the directory above -/

theorem entry_cases (h : v.Plain t home) (hp : v.Usable t home p) :
    (∃ loc node, t.entry (v.hostPath p) = .ok (loc, node) ∧ ¬ CutOff t home p ∧
      (node = .directory → t.node? (home ++ p.names) = some .directory)) ∨
    (t.entry (v.hostPath p) = .error .noEntry ∧ ¬ CutOff t home p ∧
      t.node? (home ++ p.names) = none) ∨
    (t.entry (v.hostPath p) = .error .notDirectory ∧ CutOff t home p) := by
  by_cases htop : p = VolumePath.top
  -- The top is the root itself, which leads to a directory.
  · subst htop
    have hok := isOk_entry_of_target h.target
    rw [hostPath_of_names_eq_nil (p := VolumePath.top) rfl]
    cases hentry : t.entry v.root with
    | ok found =>
      refine .inl ⟨found.1, found.2, rfl, not_cutOff_top, fun _ => ?_⟩
      rw [VolumePath.top, VolumePath.names, List.map_nil, List.append_nil, h.directory]
    | error failure =>
      rw [hentry] at hok
      cases hok
  · have hfinds : Finds t home p (t.entry (v.hostPath p)) :=
      h.finds hp (.inr (VolumePath.names_ne_nil htop))
    cases hfinds with
    | there hnode hentry =>
      exact .inl ⟨_, _, hentry, not_cutOff_of_node h.connected hnode, fun hdir => hdir ▸ hnode⟩
    | missing hnone hgo hentry => exact .inr (.inl ⟨hentry, hgo, hnone⟩)
    | cutOff hcut hentry => exact .inr (.inr ⟨hentry, hcut⟩)

theorem isDirectory_iff (h : v.Plain t home) (hp : v.Usable t home p) :
    t.isDirectory (v.hostPath p) = true ↔ t.node? (home ++ p.names) = some .directory := by
  constructor
  · intro hdir
    unfold Host.Tree.isDirectory at hdir
    split at hdir
    next htarget =>
      obtain ⟨rfl, hnode⟩ := (h.target_iff hp).1 htarget
      exact hnode
    · cases hdir
  · intro hnode
    rw [Host.Tree.isDirectory, (h.target_iff hp).2 ⟨rfl, hnode⟩]

theorem target_finds (h : v.Plain t home) (hp : v.Usable t home p) :
    Finds t home p (t.target (v.hostPath p)) :=
  h.finds hp (.inl rfl)

/-- A directory is required above the end of a path. The check asks the host for nothing else than
the directory, so it does not see what cuts the way to it off. -/
theorem requireParent_ends (h : v.Plain t home) (hp : v.Usable t home p) (hmem : p ∈ ps) :
    Ends t home ps (Stranded t home p) (v.requireParent t p) := by
  obtain ⟨segments⟩ := p
  obtain rfl | ⟨above, last, rfl⟩ := List.eq_nil_or_concat segments
  · refine .named not_stranded_top rfl (.isADirectory (.self hmem) ?_)
    rw [VolumePath.names, List.map_nil, List.append_nil, h.directory]
  rw [List.concat_eq_append] at *
  -- The outcome is that of the look-up of the path above.
  have hparent : VolumePath.parent? ⟨above ++ [last]⟩ = some (⟨above⟩, last) :=
    VolumePath.parent?_eq_some_iff.2 rfl
  have hstage : IsStage ps ⟨above⟩ := ⟨_, hmem, List.prefix_append _ _⟩
  unfold requireParent
  rw [hparent, stranded_concat_iff]
  dsimp only
  cases h.target_finds (h.usable_of_append hp) with
  | @there node hnode htarget =>
    have hgo := not_cutOff_of_node h.connected hnode
    rw [htarget]
    cases node with
    | directory => exact .done hgo rfl
    | _ => exact .named hgo rfl (.notADirectory hstage hnode (by simp))
  | missing hnone hgo htarget =>
    rw [htarget]
    exact .named hgo rfl (.directoryNotFound hstage hnone)
  | cutOff hcut htarget =>
    rw [htarget]
    exact .halted hcut rfl

/-! ## The operations -/

theorem makeDirectories_ends (h : v.Plain t home) (hparse : VolumePath.parse path = .ok p)
    (hp : v.Usable t home p) : Ends t home [p] False (v.makeDirectories t path).1 := by
  obtain ⟨t', hmake, -⟩ | ⟨stage, hmake, ⟨hstage, node, hnode, hother⟩, -⟩ :=
    h.makeDirectories_or hparse hp
  · rw [hmake]
    exact .done id rfl
  · rw [hmake]
    exact .named id rfl (.notADirectory ⟨p, by simp, hstage⟩ hnode hother)

theorem createFile_ends (h : v.Plain t home) (hparse : VolumePath.parse path = .ok p)
    (hp : v.Usable t home p) (hsize : size.toNat < Host.sizeLimit) :
    Ends t home [p] (Stranded t home p) (v.createFile t path size).1 := by
  have hc := h.confine_eq hparse hp.toSpellable
  refine (h.requireParent_ends hp (by simp)).after (fun error herror => ?_) fun hparent hgo => ?_
  · rw [createFile, hc]
    dsimp only
    rw [herror]
  obtain ⟨node, hnode, hfind⟩ | ⟨dir, name, -, -, -, hfind⟩ := h.find_of_requireParent hp hparent
  · have hcreate : (v.createFile t path size).1 = .error (.fileAlreadyExists p.render) := by
      rw [createFile, hc]
      dsimp only
      rw [hparent]
      dsimp only
      rw [Host.Tree.createFile, hfind]
      rfl
    exact .named hgo hcreate (.fileAlreadyExists (.self (by simp)) hnode)
  · obtain ⟨-, t', hcreate, -⟩ | ⟨hle, -⟩ :=
      (Vacancy.of_find hc hparent (hfind false)).createFile_cases size
    · rw [hcreate]
      exact .done hgo rfl
    · -- A file that cannot have its size would fail on the host.
      exact absurd hsize (Nat.not_lt.2 hle)

theorem stat_ends (h : v.Plain t home) (hparse : VolumePath.parse path = .ok p)
    (hp : v.Usable t home p) : Ends t home [p] False (v.stat t path) := by
  unfold stat
  rw [h.confine_eq hparse hp.toSpellable]
  dsimp only [bind, Except.bind]
  obtain ⟨loc, node, hentry, -⟩ | ⟨hentry, -, hnone⟩ | ⟨hentry, hcut⟩ := h.entry_cases hp
  · rw [hentry]
    exact .done id rfl
  · rw [hentry]
    exact .named id rfl (.fileNotFound (.self (by simp)) hnone)
  · rw [hentry]
    exact .named id rfl (.fileNotFound (.self (by simp)) (hcut.node?_eq_none h.connected))

theorem listDirectory_ends (h : v.Plain t home) (hparse : VolumePath.parse path = .ok p)
    (hp : v.Usable t home p) : Ends t home [p] False (v.listDirectory t path) := by
  unfold listDirectory
  rw [h.confine_eq hparse hp.toSpellable]
  dsimp only [bind, Except.bind]
  cases h.target_finds hp with
  | @there node hnode htarget =>
    rw [htarget]
    cases node with
    | directory => exact .done id rfl
    | _ => exact .named id rfl (.notADirectory (.self (by simp)) hnode (by simp))
  | missing hnone _ htarget =>
    rw [htarget]
    exact .named id rfl (.directoryNotFound (.self (by simp)) hnone)
  | cutOff hcut htarget =>
    rw [htarget]
    exact .named id rfl (.directoryNotFound (.self (by simp)) (hcut.node?_eq_none h.connected))

theorem deleteFile_ends (h : v.Plain t home) (hparse : VolumePath.parse path = .ok p)
    (hp : v.Usable t home p) : Ends t home [p] (CutOff t home p) (v.deleteFile t path).1 := by
  have hself : IsStage [p] p := .self (by simp)
  unfold deleteFile
  rw [h.confine_eq hparse hp.toSpellable]
  dsimp only
  obtain ⟨loc, node, hentry, hgo, hdir⟩ | ⟨hentry, hgo, hnone⟩ | ⟨hentry, hcut⟩ :=
    h.entry_cases hp
  · by_cases hnode : node = .directory
    · subst hnode
      rw [hentry]
      exact .named hgo rfl (.isADirectory hself (hdir rfl))
    · rw [hentry, Host.Tree.unlink_of_entry hentry hnode]
      cases node with
      | directory => exact absurd rfl hnode
      | _ => exact .done hgo rfl
  · rw [hentry]
    exact .named hgo rfl (.fileNotFound hself hnone)
  · rw [hentry]
    exact .halted hcut rfl

theorem removeDirectory_ends (h : v.Plain t home) (hparse : VolumePath.parse path = .ok p)
    (hp : v.Usable t home p) (recursive : Bool) :
    Ends t home [p] (CutOff t home p) (v.removeDirectory t path recursive).1 := by
  have hself : IsStage [p] p := .self (by simp)
  have hc := h.confine_eq hparse hp.toSpellable
  by_cases htop : p = VolumePath.top
  · subst htop
    have hremove : v.removeDirectory t path recursive =
        (.error (.busy VolumePath.top.render), t) := by
      rw [removeDirectory, hc]
      exact if_pos rfl
    rw [hremove]
    exact .named not_cutOff_top rfl (.busy (by simp))
  by_cases hgone : t.node? (home ++ p.names) = some .directory ∧
      (recursive = true ∨ ∀ name, t.node? (home ++ p.names ++ [name]) = none)
  · exact .done (not_cutOff_of_node h.connected hgone.1)
      (h.removeDirectory_eq_ok hparse hp htop hgone.1 hgone.2)
  have hfinds : Finds t home p (t.entry (v.hostPath p)) :=
    h.finds hp (.inr (VolumePath.names_ne_nil htop))
  unfold removeDirectory
  rw [hc]
  dsimp only
  rw [if_neg htop]
  cases hfinds with
  | @there node hnode hentry =>
    have hgo := not_cutOff_of_node h.connected hnode
    rw [hentry]
    cases node with
    | directory =>
      -- Only an empty directory may go, and this one is not empty.
      have hall := not_and.1 hgone hnode
      rw [not_or, Bool.not_eq_true, not_forall] at hall
      obtain ⟨rfl, name, hname⟩ := hall
      have hfull : ¬ t.isVacant (home ++ p.names) = true :=
        fun hvacant => hname (Host.Tree.isVacant_iff.1 hvacant name)
      have hremove : t.removeEmpty (v.hostPath p) = .error .notEmpty := by
        rw [Host.Tree.removeEmpty, hentry]
        exact if_neg hfull
      dsimp only
      rw [if_neg (by decide), hremove]
      exact .named hgo rfl (.directoryNotEmpty hself hname)
    | _ => exact .named hgo rfl (.notADirectory hself hnode (by simp))
  | missing hnone hgo hentry =>
    rw [hentry]
    exact .named hgo rfl (.directoryNotFound hself hnone)
  | cutOff hcut hentry =>
    rw [hentry]
    exact .halted hcut rfl

theorem accounts_of_replaceFailure? {failure : Host.Failure} {existing : Host.Node}
    (hstage : IsStage ps q) (hexisting : t.node? (home ++ q.names) = some existing)
    (h : t.replaceFailure? node (home ++ q.names) existing = some failure) :
    Accounts t home ps (renameError q failure) := by
  unfold Host.Tree.replaceFailure? at h
  split at h
  · split at h
    · cases h
    next hfull =>
      cases h
      obtain ⟨name, hname⟩ := not_forall.1 (mt Host.Tree.isVacant_iff.2 hfull)
      exact .directoryNotEmpty hstage hname
  next hother =>
    cases h
    exact .notADirectory hstage hexisting hother
  · cases h
    exact .isADirectory hstage hexisting
  · cases h

theorem rename_or (h : v.Plain t home) (hp : v.Usable t home p) (hq : v.Usable t home q)
    (hptop : p ≠ VolumePath.top) (hnode : t.node? (home ++ p.names) = some node)
    (hout : ¬ (p.segments <+: q.segments ∧ q ≠ p)) (hparent : v.requireParent t q = .ok ()) :
    (∃ t', t.rename (v.hostPath p) (v.hostPath q) = .ok t') ∨
      ∃ failure, t.rename (v.hostPath p) (v.hostPath q) = .error failure ∧
        Accounts t home [p, q] (renameError q failure) := by
  have hstage : IsStage [p, q] q := .self (by simp)
  have hs : t.find false (v.hostPath p) = .ok (.node (home ++ p.names) node) :=
    h.find_of_node hp (.inr (VolumePath.names_ne_nil hptop)) hnode
  -- At or below the source there is the source only.
  have hsame : home ++ p.names <+: home ++ q.names → home ++ p.names = home ++ q.names := by
    intro hbegins
    by_contra hne
    refine hout ⟨VolumePath.names_isPrefix_iff.1 ((List.prefix_append_right_inj _).1 hbegins), ?_⟩
    rintro rfl
    exact hne rfl
  unfold Host.Tree.rename
  rw [hs]
  obtain ⟨existing, hexisting, ht⟩ | ⟨dir, name, hloc, -, hfree, ht⟩ :=
    h.find_of_requireParent hq hparent
  · rw [ht]
    dsimp only
    by_cases heq : home ++ p.names = home ++ q.names
    · exact .inl ⟨t, if_pos heq⟩
    rw [if_neg heq, if_neg (mt hsame heq)]
    by_cases habove : home ++ q.names <+: home ++ p.names
    · -- The target holds the way to the source.
      obtain ⟨inner, hinner⟩ := habove
      obtain ⟨name, rest, rfl⟩ := List.exists_cons_of_ne_nil (l := inner) (by
        rintro rfl
        exact heq (by rw [← hinner, List.append_nil]))
      have hname : t.node? (home ++ q.names ++ [name]) ≠ none := by
        have hnext : home ++ q.names ++ [name] <+: home ++ p.names := by
          rw [← hinner]
          exact ⟨rest, by simp⟩
        exact h.connected.ne_none_of_prefix hnext (by simp [hnode])
      exact .inr ⟨.notEmpty, if_pos ⟨_, hinner⟩, .directoryNotEmpty hstage hname⟩
    rw [if_neg habove]
    cases hreplace : t.replaceFailure? node (home ++ q.names) existing with
    | none => exact .inl ⟨_, rfl⟩
    | some failure =>
      exact .inr ⟨failure, rfl, accounts_of_replaceFailure? hstage hexisting hreplace⟩
  · rw [ht]
    dsimp only
    refine .inl ⟨_, if_neg fun hbegins => ?_⟩
    -- Nothing stands at the target, but something does at the source.
    have heq := hsame (hloc ▸ hbegins.trans (List.prefix_append _ _))
    rw [heq, hloc, hfree] at hnode
    cases hnode

theorem rename_ends (h : v.Plain t home) (hparse : VolumePath.parse source = .ok p)
    (hparse' : VolumePath.parse target = .ok q) (hp : v.Usable t home p) (hq : v.Usable t home q) :
    Ends t home [p, q] (t.node? (home ++ p.names) ≠ none ∧
      ¬ (p.segments <+: q.segments ∧ q ≠ p) ∧ Stranded t home q) (v.rename t source target).1 := by
  unfold rename
  rw [h.confine_eq hparse hp.toSpellable, h.confine_eq hparse' hq.toSpellable]
  dsimp only
  -- The checks come in this order, and only the last one looks above the target.
  by_cases htop : p = VolumePath.top ∨ q = VolumePath.top
  · rw [if_pos htop]
    refine .named ?_ rfl (.busy (by obtain rfl | rfl := htop <;> simp))
    rintro ⟨-, hout, hstranded⟩
    have hq : q ≠ VolumePath.top := by
      rintro rfl
      exact not_stranded_top hstranded
    obtain rfl := htop.resolve_right hq
    exact hout ⟨List.nil_prefix, hq⟩
  rw [if_neg htop]
  cases hnode : t.node? (home ++ p.names) with
  | none =>
    have hmissing : ¬ t.exists? (v.hostPath p) = true :=
      fun hthere => (h.exists?_iff hp).1 hthere hnode
    rw [if_pos (by simpa using hmissing)]
    exact .named (fun hhalts => hhalts.1 rfl) rfl (.fileNotFound (.self (by simp)) hnode)
  | some node =>
    have hthere := (h.exists?_iff hp).2 (by simp [hnode])
    rw [hthere, if_neg (by decide)]
    by_cases hbelow : p.segments <+: q.segments ∧ q ≠ p
    · rw [if_pos (isBelow_iff.2 hbelow)]
      exact .named (fun hhalts => hhalts.2.1 hbelow) rfl (.intoItself rfl hbelow)
    rw [if_neg (mt isBelow_iff.1 hbelow)]
    refine ((h.requireParent_ends hq (by simp)).congr ⟨fun hstranded => ⟨nofun, hbelow, hstranded⟩,
      fun hhalts => hhalts.2.2⟩).after (fun error herror => by rw [herror]) fun hparent hgo => ?_
    rw [hparent]
    dsimp only
    obtain ⟨t', hrename⟩ | ⟨failure, hrename, haccounts⟩ :=
      h.rename_or hp hq (not_or.1 htop).1 hnode hbelow hparent
    · rw [hrename]
      exact .done hgo rfl
    · rw [hrename]
      exact .named hgo rfl haccounts

end Plain

end Volume

end VolumeStore
