import VolumeStore.Proofs.Host.Canonical
import VolumeStore.Proofs.Host.Mirror

/-!
# Calls on trees that mirror each other

A path that leads to the same place below the top of two mirrored trees is one on which the calls of
the host do the same in both: they fail alike, or leave trees that mirror each other again.
-/

namespace VolumeStore.Host.Tree

variable {t t' : Tree} {top loc : Location} {N : Numbering} {p q : Path} {follow : Bool}
  {names : List Name}

/-- The path leads to the same in both trees, at or below `top`, and the way there can be spelled in
both of them or in none. -/
structure SamePath (top : Location) (N : Numbering) (t t' : Tree) (p : Path) : Prop where
  canSpell_eq : t'.canSpell p = t.canSpell p
  find_eq : ∀ follow, t'.find follow p = (t.find follow p).map (Found.renumber N)
  inside : ∀ follow found, t.find follow p = .ok found → top <+: found.place ∧ found.Holds t

/-- The trees that two calls leave mirror each other, with files that the numbering has not known
before if they are new, and the open files are the same. -/
def Opened (top : Location) (N : Numbering) (bound : Nat) (r r' : Handle × Tree) : Prop :=
  ∃ N', N.Extends N' bound ∧ Mirrors top N' r.2 r'.2 ∧ N'.known r.1.file ∧
    r'.1 = r.1.renumber N'

namespace SamePath

theorem findEntry_eq (hp : SamePath top N t t' p) (follow : Bool) :
    t'.findEntry follow p = (t.findEntry follow p).map fun r => (r.1, r.2.renumber N) := by
  unfold findEntry
  rw [hp.find_eq]
  cases t.find follow p with
  | error failure => rfl
  | ok found => cases found <;> rfl

theorem canonical_eq (hp : SamePath top N t t' p) :
    t'.canonical p = (t.canonical p).map fun r => (r.1, r.2.renumber N) := by
  unfold canonical target
  rw [hp.canSpell_eq, hp.findEntry_eq]
  split <;> rfl

theorem exists?_eq (hp : SamePath top N t t' p) : t'.exists? p = t.exists? p := by
  unfold exists? target
  rw [hp.findEntry_eq]
  cases t.findEntry true p <;> rfl

theorem isOk_entry_eq (hp : SamePath top N t t' p) : (t'.entry p).isOk = (t.entry p).isOk := by
  unfold entry
  rw [hp.findEntry_eq]
  cases t.findEntry false p <;> rfl

theorem isDirectory_eq (hp : SamePath top N t t' p) : t'.isDirectory p = t.isDirectory p := by
  unfold isDirectory target
  rw [hp.findEntry_eq]
  cases t.findEntry true p with
  | error failure => rfl
  | ok found =>
    obtain ⟨loc, node⟩ := found
    cases node <;> rfl

theorem inside_entry (hp : SamePath top N t t' p) {loc : Location} {node : Node}
    (h : t.findEntry follow p = .ok (loc, node)) : top <+: loc ∧ t.node? loc = some node := by
  unfold findEntry at h
  split at h
  next hfind =>
    cases h
    exact hp.inside follow _ hfind
  · cases h
  · cases h

end SamePath

namespace Mirrors

theorem spells_eq (h : Mirrors top N t t') (hlinks : t.LinkFree)
    (hp : top <+: loc) (hentry : ∀ name ∈ names, IsEntryName name) (n n' : Nat) :
    t'.spells n' loc names = t.spells n loc names := by
  induction names generalizing loc with
  | nil => rw [spells_nil, spells_nil]
  | cons name rest ih =>
    have hname := hentry name List.mem_cons_self
    have hrest := ih (hp.trans (List.prefix_append loc [name]))
      fun name' hmem => hentry name' (List.mem_cons_of_mem _ hmem)
    rw [spells_entry _ _ _ hname, spells_entry _ _ _ hname,
      h.node?_eq (below_of_prefix_concat hp)]
    cases hnode : t.node? (loc ++ [name]) with
    | none => rfl
    | some node =>
      cases node with
      | directory => exact congrArg (isSpellable (loc ++ [name]) rest && ·) hrest
      | link target => exact absurd hnode (hlinks _ target)
      | file id => rfl
      | socket => rfl

/-! ## Removing -/

theorem alike_unlink (h : Mirrors top N t t') (hp : SamePath top N t t' p) :
    Alike (Mirrors top N) (t.unlink p) (t'.unlink p) := by
  unfold unlink entry
  rw [hp.findEntry_eq]
  cases t.findEntry false p with
  | error failure => exact .error failure
  | ok found =>
    obtain ⟨loc, node⟩ := found
    cases node with
    | directory => exact .error _
    | file id => exact .ok (h.remove loc)
    | link target => exact .ok (h.remove loc)
    | socket => exact .ok (h.remove loc)

theorem alike_removeEmpty (h : Mirrors top N t t') (hp : SamePath top N t t' p) :
    Alike (Mirrors top N) (t.removeEmpty p) (t'.removeEmpty p) := by
  unfold removeEmpty entry
  rw [hp.findEntry_eq]
  cases hentry : t.findEntry false p with
  | error failure => exact .error failure
  | ok found =>
    obtain ⟨loc, node⟩ := found
    cases node with
    | directory =>
      simp only [Except.map, Node.renumber, h.isVacant_eq (hp.inside_entry hentry).1]
      split
      · exact .ok (h.remove loc)
      · exact .error _
    | file id => exact .error _
    | link target => exact .error _
    | socket => exact .error _

theorem removeAll (h : Mirrors top N t t') (hp : SamePath top N t t' p)
    (hclear : ∀ loc, top <+: loc → SamePath top N (t.clear loc) (t'.clear loc) p) :
    (t'.removeAll p).1 = (t.removeAll p).1 ∧
      Mirrors top N (t.removeAll p).2 (t'.removeAll p).2 := by
  unfold Tree.removeAll entry
  rw [hp.findEntry_eq]
  cases hentry : t.findEntry false p with
  | error failure => exact ⟨rfl, h⟩
  | ok found =>
    obtain ⟨loc, node⟩ := found
    cases node with
    | directory =>
      simp only [Except.map, Node.renumber]
      have hremove := (h.clear loc).alike_removeEmpty (hclear loc (hp.inside_entry hentry).1)
      generalize (t.clear loc).removeEmpty p = result at hremove ⊢
      generalize (t'.clear loc).removeEmpty p = result' at hremove ⊢
      cases hremove with
      | error failure => exact ⟨rfl, h.clear loc⟩
      | ok hok => exact ⟨rfl, hok⟩
    | file id => exact ⟨rfl, h⟩
    | link target => exact ⟨rfl, h.remove loc⟩
    | socket => exact ⟨rfl, h⟩

/-! ## Renaming -/

theorem replaceFailure?_eq (h : Mirrors top N t t') {loc : Location} (hp : top <+: loc)
    (source existing : Node) :
    t'.replaceFailure? (source.renumber N) loc (existing.renumber N) =
      t.replaceFailure? source loc existing := by
  cases source <;> cases existing <;>
    simp only [replaceFailure?, Node.renumber, h.isVacant_eq hp]

theorem alike_rename (h : Mirrors top N t t') (hp : SamePath top N t t' p)
    (hq : SamePath top N t t' q) : Alike (Mirrors top N) (t.rename p q) (t'.rename p q) := by
  unfold rename
  rw [hp.find_eq, hq.find_eq]
  cases hs : t.find false p with
  | error failure => exact .error failure
  | ok found =>
    have hsin := (hp.inside false found hs).1
    cases ht : t.find false q with
    | error failure => cases found <;> exact .error failure
    | ok found' =>
      have htin := (hq.inside false found' ht).1
      cases found with
      | vacant dir name => exact .error _
      | node loc node =>
        cases found' with
        | vacant dir name =>
          simp only [Except.map, Found.renumber]
          split
          · exact .error _
          next hprefix =>
            -- If the directory `top` itself were moved, the free name would stand in it.
            refine .ok (h.move ⟨hsin, ?_⟩ (below_of_prefix_concat htin))
            rintro rfl
            exact hprefix htin
        | node loc' existing =>
          have hsource : top <+: loc := hsin
          have htarget : top <+: loc' := htin
          simp only [Except.map, Found.renumber, h.replaceFailure?_eq htarget]
          split
          · exact .ok h
          · split
            · exact .error _
            next hprefix =>
              split
              · exact .error _
              next hprefix' =>
                split
                · exact .error _
                · -- Neither end can be `top`, since the other one stands at or below it.
                  refine .ok (h.move ⟨hsource, ?_⟩ ⟨htarget, ?_⟩)
                  · rintro rfl
                    exact hprefix htarget
                  · rintro rfl
                    exact hprefix' hsource

/-! ## Opening -/

theorem not_known_length (h : Mirrors top N t t') : ¬ N.known t.contents.length :=
  fun hknown => Nat.lt_irrefl _ (h.stored _ hknown)

theorem opened_new (h : Mirrors top N t t') {dir : Location} (hp : top <+: dir) (name : Name)
    (access : Access) :
    Opened top N t.contents.length
      ({ file := t.contents.length, access := access }, (t.insertFile (dir ++ [name])).2)
      ({ file := t'.contents.length, access := access }, (t'.insertFile (dir ++ [name])).2) := by
  refine ⟨_, Numbering.extends_insert h.not_known_length,
    h.insertFile (below_of_prefix_concat hp), .inr rfl, ?_⟩
  simp [Handle.renumber, Numbering.insert]

theorem alike_createFile (h : Mirrors top N t t') (hp : SamePath top N t t' p) :
    Alike (Opened top N t.contents.length) (t.createFile p) (t'.createFile p) := by
  unfold createFile
  rw [hp.find_eq]
  cases hfind : t.find false p with
  | error failure => exact .error failure
  | ok found =>
    cases found with
    | node loc node => exact .error _
    | vacant dir name => exact .ok (h.opened_new (hp.inside false _ hfind).1 name _)

theorem alike_openFile (h : Mirrors top N t t') (htop : t.node? top = some .directory)
    (hp : SamePath top N t t' p) (access : Access) (create : Bool) :
    Alike (Opened top N t.contents.length) (t.openFile p access create)
      (t'.openFile p access create) := by
  unfold openFile
  split
  · exact .error _
  · split
    · exact .error _
    · rw [hp.find_eq]
      cases hfind : t.find true p with
      | error failure => exact .error failure
      | ok found =>
        obtain ⟨hin, hholds⟩ := hp.inside true found hfind
        cases found with
        | vacant dir name =>
          simp only [Except.map, Found.renumber]
          split
          · exact .ok (h.opened_new hin name access)
          · exact .error _
        | node loc node =>
          cases node with
          | directory => exact .error _
          | link target => exact .error _
          | socket => exact .error _
          | file id =>
            -- A file is not the directory `top`, so it is below, and known.
            have hb : Below top loc := by
              refine ⟨hin, ?_⟩
              rintro rfl
              rw [show t.node? _ = some (Node.file id) from hholds] at htop
              cases htop
            exact .ok ⟨N, .refl N _, h, h.known_of_node? hb hholds, rfl⟩

end Mirrors

end VolumeStore.Host.Tree
