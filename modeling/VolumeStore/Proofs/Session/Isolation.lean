import Mathlib.Logic.Function.Basic
import VolumeStore.Proofs.Session.Locality
import VolumeStore.Proofs.Volume.Placement

/-!
# Sessions on different volumes

Any number of sessions share a tree, each on a volume of its own, and their instructions come in any
order. What one of them is answered, and what becomes of it and of its volume, is what it would be
if the instructions of all the others were left out. Only the numbers of files and the times are
those of the run.
-/

namespace VolumeStore

open Host (Location Below FileId Numbering)
open Host.Tree (Mirrors)

structure Instruction where
  command : Command
  payload : List UInt8

structure Course where
  outcomes : List Outcome
  session : Session
  tree : Host.Tree

def Session.run (settings : StoreSettings) (s : Session) (t : Host.Tree) : List Instruction → Course
  | [] => ⟨[], s, t⟩
  | instruction :: rest =>
    let e := s.execute settings t instruction.command instruction.payload
    let course := e.session.run settings e.tree rest
    { course with outcomes := e.outcome :: course.outcomes }

/-- What the instructions of several sessions come to, each outcome with the session that gets it.
-/
structure Shared (ι : Type) where
  outcomes : List (ι × Outcome)
  sessions : ι → Session
  tree : Host.Tree

section

variable {ι : Type} [DecidableEq ι]

def runTogether (settings : StoreSettings) (sessions : ι → Session) (t : Host.Tree) :
    List (ι × Instruction) → Shared ι
  | [] => ⟨[], sessions, t⟩
  | (i, instruction) :: rest =>
    let e := (sessions i).execute settings t instruction.command instruction.payload
    let shared := runTogether settings (Function.update sessions i e.session) e.tree rest
    { shared with outcomes := (i, e.outcome) :: shared.outcomes }

def partOf {α : Type} (i : ι) (entries : List (ι × α)) : List α :=
  entries.filterMap fun entry => if entry.1 = i then some entry.2 else none

theorem partOf_cons_self {α : Type} (i : ι) (x : α) (entries : List (ι × α)) :
    partOf i ((i, x) :: entries) = x :: partOf i entries := by
  simp [partOf]

theorem partOf_cons_of_ne {α : Type} {i j : ι} (h : j ≠ i) (x : α) (entries : List (ι × α)) :
    partOf i ((j, x) :: entries) = partOf i entries := by
  simp [partOf, h]

/-- The open files of the sessions are stored, and none of them is open in another session or stands
below the directory of another one's volume. -/
structure Private (t : Host.Tree) (home : ι → Location) (sessions : ι → Session) : Prop where
  stored : ∀ i, ∀ entry ∈ (sessions i).files, entry.2.handle.file < t.contents.length
  held : ∀ i j, ∀ entry ∈ (sessions i).files, t.Holds (home j) entry.2.handle.file → i = j
  opened : ∀ i j, ∀ entry ∈ (sessions i).files, ∀ entry' ∈ (sessions j).files,
    entry.2.handle.file = entry'.2.handle.file → i = j

def StaysOn (settings : StoreSettings) (volume : ι → String) (steps : List (ι × Instruction)) :
    Prop :=
  ∀ step ∈ steps, ∀ name, step.2.command = .mount name → settings.hasVolume name = true →
    name = volume step.1

/-- The tree on a host with another clock, which gives its entries other times and numbers, now and
later. -/
def Host.Tree.restamped (t : Host.Tree) (stamps : Nat → Location → Host.Stamp) : Host.Tree :=
  { t with stamps := stamps }

/-- What a session comes to alone is what it comes to among others, but for the numbers of files and
the times. -/
structure Undisturbed (i : ι) (home : Location) (alone : Course) (shared : Shared ι) : Prop where
  outcomes : List.Forall₂ Outcome.SameUnstamped (partOf i shared.outcomes) alone.outcomes
  rest : ∃ N : Numbering, Mirrors home N shared.tree alone.tree ∧
    (shared.sessions i).KnownIn N ∧ alone.session = (shared.sessions i).renumber N

theorem Undisturbed.codes_eq {i : ι} {home : Location} {alone : Course} {shared : Shared ι}
    (h : Undisturbed i home alone shared) :
    alone.outcomes.map (·.reply.code) = (partOf i shared.outcomes).map (·.reply.code) := by
  have houtcomes := h.outcomes
  generalize partOf i shared.outcomes = outcomes at houtcomes
  generalize alone.outcomes = outcomes' at houtcomes
  induction houtcomes with
  | nil => rfl
  | cons hhead _ ih => rw [List.map_cons, List.map_cons, hhead.code_eq, ih]

/-! ## The session alone -/

/-- A session in a tree that it shares, and the same one in a tree of its own, on a volume that
looks the same in both. -/
structure Shadows (v : Volume) (region : Location → Prop) (home : Location) (ids : FileId → Prop)
    (N : Numbering) (s : Session) (t : Host.Tree) (s' : Session) (t' : Host.Tree) : Prop where
  twins : v.Twins region home N t t'
  knownIn : s.KnownIn N
  known : ∀ id, N.known id → ids id
  session : s' = s.renumber N

section Shadows

variable {settings : StoreSettings} {v : Volume} {region : Location → Prop} {home top : Location}
  {ids ids' : FileId → Prop} {N : Numbering} {s s' : Session} {t t' u : Host.Tree}

theorem Shadows.execute (h : Shadows v region home ids N s t s' t') (hv : s.OnlyOn v)
    (ho : Session.Owns home ids s t) {command : Command}
    (hcommand : ∀ name, command = .mount name → settings.hasVolume name = true →
      settings.volumePath name = v.root) (payload : List UInt8) :
    (s.execute settings t command payload).outcome.SameUnstamped
        (s'.execute settings t' command payload).outcome ∧
      ∃ N', Shadows v region home
        (Session.grown ids t (s.execute settings t command payload).tree) N'
        (s.execute settings t command payload).session (s.execute settings t command payload).tree
        (s'.execute settings t' command payload).session
        (s'.execute settings t' command payload).tree := by
  obtain ⟨htwins, hknownIn, hknown, rfl⟩ := h
  -- In a tree of its own, all files may belong to the session.
  have hown : Session.Owns home (fun id => id < t'.contents.length) (s.renumber N) t' := by
    refine ⟨fun id hheld => ?_, fun entry hmem => ?_, fun _ hlt => hlt⟩
    · obtain ⟨loc, -, hnode⟩ := hheld
      exact htwins.right.wellFormed.stored hnode
    · obtain ⟨old, hold, rfl⟩ := List.mem_map.1 hmem
      exact htwins.mirrors.stored' _ (hknownIn old hold)
  have hleft := Session.confined_execute htwins.left hv ho hcommand payload
  have hright := Session.confined_execute htwins.right (s := s.renumber N) hv hown hcommand payload
  obtain ⟨houtcome, N', hextends, hmirrors, hknownIn', hsession⟩ :=
    Session.answers_execute htwins hv hknownIn hcommand payload
  refine ⟨houtcome, N', ⟨htwins.left.stays hleft.stays, htwins.right.stays hright.stays,
    (hright.stays.home.trans htwins.workingDirectory).trans hleft.stays.home.symm, hmirrors⟩,
    hknownIn', fun id hid => ?_, hsession⟩
  obtain hold | hnew := hextends.fresh id hid
  · exact .inl (hknown id hold)
  · exact .inr ⟨hnew, hmirrors.stored id hid⟩

theorem Shadows.of_staysWithin (h : Shadows v region home ids N s t s' t')
    (hs : Host.Tree.StaysWithin top ids' t u) (hsettled : v.Settled region u home)
    (hplace : ∀ loc, home <+: loc → ¬ Below top loc) (hids : ∀ id, ids id → ¬ ids' id) :
    Shadows v region home ids N s u s' t' where
  twins := by
    refine ⟨hsettled, h.twins.right, h.twins.workingDirectory.trans hs.home.symm, ?_⟩
    exact h.twins.mirrors.of_changesOnly hs.toChangesOnly hplace fun id hid =>
      hids id (h.known id hid)
  knownIn := h.knownIn
  known := h.known
  session := h.session

end Shadows

/-! ## The sessions together -/

/-- The sessions stay apart: each on its volume, with files that are its own. -/
structure Apart (v : ι → Volume) (home : ι → Location) (ids : ι → FileId → Prop)
    (sessions : ι → Session) (t : Host.Tree) : Prop where
  settled : ∀ i, (v i).Settled (fun loc => ∃ j, Below (home j) loc) t (home i)
  outside : ∀ i j, ¬ Below (home i) (home j)
  unshared : ∀ i j loc, Below (home i) loc → Below (home j) loc → i = j
  onlyOn : ∀ i, (sessions i).OnlyOn (v i)
  owns : ∀ i, Session.Owns (home i) (ids i) (sessions i) t
  disjoint : ∀ i j id, ids i id → ids j id → i = j

variable {settings : StoreSettings} {v : ι → Volume} {home : ι → Location} {i j : ι}
  {ids : ι → FileId → Prop} {sessions : ι → Session} {t t' : Host.Tree} {s' : Session}
  {N : Numbering} {e : Execution}

omit [DecidableEq ι] in
theorem Apart.settled_of_confined (h : Apart v home ids sessions t)
    (hc : Session.Confined (v j) (home j) (ids j) t e) (i : ι) :
    (v i).Settled (fun loc => ∃ j, Below (home j) loc) e.tree (home i) :=
  (h.settled i).of_staysWithin hc.stays (fun _ hb => ⟨j, hb⟩) (h.outside j i)

theorem Apart.of_confined (h : Apart v home ids sessions t)
    (hc : Session.Confined (v j) (home j) (ids j) t e) :
    Apart v home (Function.update ids j (Session.grown (ids j) t e.tree))
      (Function.update sessions j e.session) e.tree where
  settled := h.settled_of_confined hc
  outside := h.outside
  unshared := h.unshared
  onlyOn i := by
    by_cases hi : i = j
    · subst hi
      rw [Function.update_self]
      exact hc.onlyOn
    · rw [Function.update_of_ne hi]
      exact h.onlyOn i
  owns i := by
    by_cases hi : i = j
    · subst hi
      rw [Function.update_self, Function.update_self]
      exact hc.owns (h.owns i)
    · rw [Function.update_of_ne hi, Function.update_of_ne hi]
      refine ⟨fun id hheld => ?_, (h.owns i).opened, fun id hid => ?_⟩
      · obtain ⟨loc, hb, hnode⟩ := hheld
        rw [hc.stays.node?_eq fun hb' => hi (h.unshared i j loc hb hb')] at hnode
        exact (h.owns i).holds id ⟨loc, hb, hnode⟩
      · exact Nat.lt_of_lt_of_le ((h.owns i).stored id hid) hc.stays.stored
  disjoint := by
    -- New files have numbers that none of the others' files can have.
    have hnew : ∀ i id, i ≠ j → ids i id → ¬ Session.grown (ids j) t e.tree id := by
      rintro i id hi hid (hold | ⟨hle, -⟩)
      · exact hi (h.disjoint i j id hid hold)
      · exact Nat.not_lt.2 hle ((h.owns i).stored id hid)
    intro i i' id hid hid'
    by_cases hi : i = j
    · by_cases hi' : i' = j
      · rw [hi, hi']
      · rw [hi, Function.update_self] at hid
        rw [Function.update_of_ne hi'] at hid'
        exact absurd hid (hnew i' id hi' hid')
    · rw [Function.update_of_ne hi] at hid
      by_cases hi' : i' = j
      · rw [hi', Function.update_self] at hid'
        exact absurd hid' (hnew i id hi hid)
      · rw [Function.update_of_ne hi'] at hid'
        exact h.disjoint i i' id hid hid'

/-! ## A run -/

theorem Apart.undisturbed (h : Apart v home ids sessions t)
    (hshadow : Shadows (v i) (fun loc => ∃ j, Below (home j) loc) (home i) (ids i) N (sessions i) t
      s' t') (steps : List (ι × Instruction))
    (hsteps : ∀ step ∈ steps, ∀ name, step.2.command = .mount name →
      settings.hasVolume name = true → settings.volumePath name = (v step.1).root) :
    Undisturbed i (home i) (s'.run settings t' (partOf i steps))
      (runTogether settings sessions t steps) := by
  -- Along the steps both trees, the sessions and their files change; that they are apart and that
  -- the shadow is one stays.
  induction steps generalizing ids sessions t s' t' N with
  | nil => exact ⟨.nil, N, hshadow.twins.mirrors, hshadow.knownIn, hshadow.session⟩
  | cons step rest ih =>
    obtain ⟨j, instruction⟩ := step
    have hcommand := hsteps (j, instruction) List.mem_cons_self
    have hrest := fun step hmem => hsteps step (List.mem_cons_of_mem (j, instruction) hmem)
    have hc := Session.confined_execute (h.settled j) (h.onlyOn j) (h.owns j) hcommand
      instruction.payload
    have hnext := h.of_confined hc
    rw [runTogether]
    by_cases hj : j = i
    · -- The step is taken on both sides.
      subst hj
      obtain ⟨houtcome, N', hshadow'⟩ :=
        hshadow.execute (h.onlyOn j) (h.owns j) hcommand instruction.payload
      rw [partOf_cons_self, Session.run]
      obtain ⟨houtcomes, hleft⟩ := ih hnext (by simpa using hshadow') hrest
      refine ⟨?_, hleft⟩
      rw [partOf_cons_self]
      exact .cons houtcome houtcomes
    · -- The step is another session's, and is not taken alone.
      rw [partOf_cons_of_ne hj]
      have hplace : ∀ loc, home i <+: loc → ¬ Below (home j) loc := by
        intro loc hp hb
        by_cases hloc : loc = home i
        · exact h.outside j i (hloc ▸ hb)
        · exact hj (h.unshared j i loc hb ⟨hp, hloc⟩)
      have hshadow' := hshadow.of_staysWithin hc.stays (h.settled_of_confined hc i) hplace
        fun id hid hid' => hj (h.disjoint j i id hid' hid)
      have hi : i ≠ j := Ne.symm hj
      obtain ⟨houtcomes, hleft⟩ := ih hnext (by simpa [hi] using hshadow') hrest
      refine ⟨?_, hleft⟩
      rw [partOf_cons_of_ne hj]
      exact houtcomes

def filesOf (t : Host.Tree) (home : Location) (s : Session) (id : FileId) : Prop :=
  t.Holds home id ∨ ∃ entry ∈ s.files, entry.2.handle.file = id

variable {volume : ι → String}

omit [DecidableEq ι] in
theorem Placed.apart (h : Placed settings t volume home)
    (hmounted : ∀ i, (sessions i).OnlyOn ⟨settings.volumePath (volume i)⟩)
    (hfiles : Private t home sessions) :
    Apart (fun i => ⟨settings.volumePath (volume i)⟩) home
      (fun i => filesOf t (home i) (sessions i)) sessions t where
  settled := h.settled
  outside := h.not_below_home
  unshared _ _ _ := h.eq_of_below
  onlyOn := hmounted
  owns i := by
    refine ⟨fun id hheld => .inl hheld, fun entry hmem => .inr ⟨entry, hmem, rfl⟩, fun id hid => ?_⟩
    obtain ⟨loc, -, hnode⟩ | ⟨entry, hmem, rfl⟩ := hid
    · exact h.wellFormed.stored hnode
    · exact hfiles.stored i entry hmem
  disjoint i j id hid hid' := by
    -- A file is owned by its place or by a descriptor, and no two volumes share one either way.
    obtain ⟨loc, hb, hnode⟩ | ⟨entry, hmem, rfl⟩ := hid
    · obtain ⟨loc', hb', hnode'⟩ | ⟨entry', hmem', rfl⟩ := hid'
      · obtain rfl := h.wellFormed.unshared hnode hnode'
        exact h.eq_of_below hb hb'
      · exact (hfiles.held j i entry' hmem' ⟨loc, hb, hnode⟩).symm
    · obtain hheld | ⟨entry', hmem', hsame⟩ := hid'
      · exact hfiles.held i j entry hmem hheld
      · exact hfiles.opened i j entry hmem entry' hmem' hsame.symm

omit [DecidableEq ι] in
theorem Volume.Settled.restamped {v : Volume} {region : Location → Prop} {home : Location}
    (h : v.Settled region t home) (stamps : Nat → Location → Host.Stamp) :
    v.Settled region (t.restamped stamps) home where
  wellFormed := ⟨⟨h.wellFormed.above⟩, h.wellFormed.stored, h.wellFormed.unshared⟩
  target := h.fixed (t.restamped stamps) rfl fun _ _ => rfl
  directory := h.directory
  linkFree := h.linkFree
  covered := h.covered
  fixed := h.fixed

/-- No session is disturbed by the others, in whatever order their instructions come and whatever
the clock says when it is alone. -/
theorem undisturbed_of_placed (h : Placed settings t volume home)
    (hunique : (t.nodes.map (·.1)).Nodup)
    (hmounted : ∀ i, (sessions i).OnlyOn ⟨settings.volumePath (volume i)⟩)
    (hfiles : Private t home sessions) (steps : List (ι × Instruction))
    (hsteps : StaysOn settings volume steps) (stamps : Nat → Location → Host.Stamp) (i : ι) :
    Undisturbed i (home i) ((sessions i).run settings (t.restamped stamps) (partOf i steps))
      (runTogether settings sessions t steps) := by
  have hapart := h.apart hmounted hfiles
  have hsame : Mirrors (home i) ⟨filesOf t (home i) (sessions i), fun id => id⟩ t t :=
    .of_unique hunique (fun id hheld => .inl hheld) fun id hid => (hapart.owns i).stored id hid
  have hmirrors : Mirrors (home i) ⟨filesOf t (home i) (sessions i), fun id => id⟩ t
      (t.restamped stamps) :=
    ⟨hsame.inside, hsame.user, hsame.owners, hsame.named, hsame.stored, hsame.stored',
      hsame.injective, hsame.content⟩
  refine hapart.undisturbed (N := ⟨_, fun id => id⟩)
    ⟨⟨h.settled i, (h.settled i).restamped stamps, rfl, hmirrors⟩, ?_,
      fun _ hid => hid, (Session.renumber_same _ _).symm⟩ steps
    fun step hmem name hname hserved => ?_
  · exact fun entry hmem => .inr ⟨entry, hmem, rfl⟩
  · rw [hsteps step hmem name hname hserved]

/-! ## Two volumes -/

section TwoVolumes

open Text (encode)

def sideName (right : Bool) : String :=
  if right then "b" else "a"

def sideHome (right : Bool) : Location :=
  [encode "r", encode (sideName right)]

def twoVolumes (root : String) : StoreSettings :=
  { storeRoot := root, volumes := ["a", "b"] }

def mountedOn (settings : StoreSettings) (right : Bool) : Session :=
  { mounted := some ⟨sideName right, ⟨settings.volumePath (sideName right)⟩⟩ }

def sideBySide : Host.Tree where
  nodes :=
    [([encode "r"], .directory),
     ([encode "r", encode "a"], .directory),
     ([encode "r", encode "a", encode "d"], .directory),
     ([encode "r", encode "b"], .directory)]

theorem wellFormed_sideBySide : sideBySide.WellFormed :=
  Host.Tree.wellFormed_of_nodes (by decide +kernel) (by decide +kernel)

theorem linkFree_sideBySide : sideBySide.LinkFree :=
  Host.Tree.linkFree_of_nodes (by decide +kernel)

theorem onlyOn_mountedOn (settings : StoreSettings) (right : Bool) :
    (mountedOn settings right).OnlyOn ⟨settings.volumePath (sideName right)⟩ := by
  intro mount hmount
  cases hmount
  rfl

theorem private_mountedOn (settings : StoreSettings) (t : Host.Tree) (home : Bool → Location) :
    Private t home (mountedOn settings) :=
  ⟨fun _ _ hmem => absurd hmem List.not_mem_nil, fun _ _ _ hmem => absurd hmem List.not_mem_nil,
    fun _ _ _ hmem => absurd hmem List.not_mem_nil⟩

theorem placed_sideBySide : Placed (twoVolumes "r") sideBySide sideName sideHome where
  valid := by decide +kernel
  served := by decide +kernel
  different := by decide +kernel
  wellFormed := wellFormed_sideBySide
  linkFree := linkFree_sideBySide
  target := by decide +kernel
  beside := by decide +kernel

def filesInTurn : List (Bool × Instruction) :=
  [(false, ⟨.create 1 "/f", []⟩), (true, ⟨.create 2 "/f", []⟩), (false, ⟨.delete "/f", []⟩),
   (true, ⟨.stat "/f", []⟩)]

def laterClock (changes : Nat) (_ : Location) : Host.Stamp :=
  { ino := 7, mtime := (1000 + changes, 0) }

theorem undisturbed_of_placed_filesInTurn :
    Placed (twoVolumes "r") sideBySide sideName sideHome ∧
      (sideBySide.nodes.map (·.1)).Nodup ∧
      (∀ i, (mountedOn (twoVolumes "r") i).OnlyOn ⟨(twoVolumes "r").volumePath (sideName i)⟩) ∧
      Private sideBySide sideHome (mountedOn (twoVolumes "r")) ∧
      StaysOn (twoVolumes "r") sideName filesInTurn ∧
      Undisturbed true (sideHome true)
        ((mountedOn (twoVolumes "r") true).run (twoVolumes "r") (sideBySide.restamped laterClock)
          (partOf true filesInTurn))
        (runTogether (twoVolumes "r") (mountedOn (twoVolumes "r")) sideBySide filesInTurn) := by
  have hunique : (sideBySide.nodes.map (·.1)).Nodup := by decide +kernel
  have hmounted := onlyOn_mountedOn (twoVolumes "r")
  have hfiles := private_mountedOn (twoVolumes "r") sideBySide sideHome
  have hsteps : StaysOn (twoVolumes "r") sideName filesInTurn := by
    intro step hmem name hname
    simp only [filesInTurn, List.mem_cons, List.not_mem_nil, or_false] at hmem
    obtain rfl | rfl | rfl | rfl := hmem <;> cases hname
  exact ⟨placed_sideBySide, hunique, hmounted, hfiles, hsteps,
    undisturbed_of_placed placed_sideBySide hunique hmounted hfiles filesInTurn hsteps laterClock
      true⟩

/-- The path of the store's root may not lead through a volume: once the directory that it passes is
removed there, no volume is to be found any more. -/
theorem not_forall_undisturbed :
    ¬ ∀ (settings : StoreSettings) (t : Host.Tree) (volume : Bool → String)
      (home : Bool → Location) (sessions : Bool → Session) (steps : List (Bool × Instruction))
      (stamps : Nat → Location → Host.Stamp),
      settings.fault? = none → (∀ i, settings.hasVolume (volume i) = true) →
      (∀ i j, volume i = volume j → i = j) → t.WellFormed → (t.nodes.map (·.1)).Nodup →
      t.LinkFree → (∀ name ∈ settings.volumes, t.isDirectory (settings.volumePath name) = true) →
      (∀ i, t.target (settings.volumePath (volume i)) = .ok (home i, .directory)) →
      (∀ i, (sessions i).OnlyOn ⟨settings.volumePath (volume i)⟩) → Private t home sessions →
      StaysOn settings volume steps →
      ∀ i, Undisturbed i (home i)
        ((sessions i).run settings (t.restamped stamps) (partOf i steps))
        (runTogether settings sessions t steps) := by
  intro h
  let settings := twoVolumes "r/a/d/../.."
  have hsteps : StaysOn settings sideName
      [(false, ⟨.removeDirectory false "/d", []⟩), (true, ⟨.makeDirectory "/e", []⟩)] := by
    intro step hmem name hname
    simp only [List.mem_cons, List.not_mem_nil, or_false] at hmem
    obtain rfl | rfl := hmem <;> cases hname
  -- Alone the session on `b` makes its directory; together its root is not found any more.
  have hcodes := (h settings sideBySide sideName sideHome (mountedOn settings) _ laterClock
    (by decide +kernel) (by decide +kernel) (by decide +kernel) wellFormed_sideBySide
    (by decide +kernel) linkFree_sideBySide (by decide +kernel) (by decide +kernel)
    (onlyOn_mountedOn settings) (private_mountedOn settings _ _) hsteps true).codes_eq
  exact absurd hcodes (by decide +kernel)

end TwoVolumes

end

end VolumeStore
