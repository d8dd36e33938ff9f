import Mathlib.Data.List.Nodup
import Mathlib.Data.List.TakeWhile
import VolumeStore.Settings.Layer

/-!
# What wins when layers are merged

A value laid over another one wins where it says something; elsewhere the other one stays. For
whole layers: what an entry gives stands unless a later entry meets its way.
-/

namespace VolumeStore.Setting

/-! ## Entries by name -/

theorem lookup_replace {β : Type} (entries : List (String × β)) (name other : String) (value : β) :
    (entries.map fun entry => if entry.1 = name then (name, value) else entry).lookup other =
      if other = name then (entries.lookup name).map fun _ => value else entries.lookup other := by
  induction entries with
  | nil => simp
  | cons entry entries ih =>
    obtain ⟨key, old⟩ := entry
    by_cases hk : key = name
    · subst hk
      by_cases ho : other = key
      · simp [ho]
      · simp only [List.map_cons, if_true, List.lookup_cons, beq_eq_false_iff_ne.mpr ho, ih,
          if_neg ho]
    · have hn : (name == key) = false := beq_eq_false_iff_ne.mpr (Ne.symm hk)
      by_cases ho : other = key
      · simp [ho, hk]
      · simp only [List.map_cons, if_neg hk, List.lookup_cons, beq_eq_false_iff_ne.mpr ho, ih, hn]

theorem any_name_eq_isSome_lookup {β : Type} (entries : List (String × β)) (name : String) :
    (entries.any (·.1 = name)) = (entries.lookup name).isSome := by
  induction entries with
  | nil => rfl
  | cons entry entries ih =>
    obtain ⟨key, old⟩ := entry
    by_cases hk : name = key
    · simp [hk]
    · simp [List.lookup_cons, beq_eq_false_iff_ne.mpr hk, Ne.symm hk, ih]

theorem lookup_eq_none_iff_notMem {β : Type} {entries : List (String × β)} {name : String} :
    entries.lookup name = none ↔ name ∉ entries.map (·.1) := by
  simp only [List.lookup_eq_none_iff, bne_iff_ne, List.mem_map, not_exists, not_and]
  exact forall₂_congr fun _ _ => ne_comm

theorem mem_of_lookup_eq_some {β : Type} {entries : List (String × β)} {name : String} {value : β}
    (h : entries.lookup name = some value) : (name, value) ∈ entries := by
  obtain ⟨before, after, rfl, -⟩ := List.lookup_eq_some_iff.mp h
  simp

theorem lookup_putEntry (entries : List (String × Setting)) (name other : String)
    (value : Setting) :
    (putEntry entries name value).lookup other =
      if other = name then some value else entries.lookup other := by
  rw [putEntry, any_name_eq_isSome_lookup]
  split
  case isTrue hsome =>
    obtain ⟨old, hold⟩ := Option.isSome_iff_exists.mp hsome
    rw [lookup_replace, hold, Option.map_some]
  case isFalse hnone =>
    rw [List.lookup_append]
    by_cases ho : other = name
    · subst ho
      simp [Option.not_isSome_iff_eq_none.mp hnone]
    · simp [ho, List.lookup_cons, beq_eq_false_iff_ne.mpr ho]

theorem mem_putEntry {entries : List (String × Setting)} {name : String} {value : Setting}
    {entry : String × Setting} (h : entry ∈ putEntry entries name value) :
    entry = (name, value) ∨ entry ∈ entries := by
  unfold putEntry at h
  split at h
  · obtain ⟨old, hold, rfl⟩ := List.mem_map.mp h
    split
    · exact .inl rfl
    · exact .inr hold
  · simpa [or_comm] using h

theorem nodup_putEntry {entries : List (String × Setting)} (h : (entries.map (·.1)).Nodup)
    (name : String) (value : Setting) : ((putEntry entries name value).map (·.1)).Nodup := by
  unfold putEntry
  split
  case isTrue hany =>
    have hkeys : (entries.map fun entry => if entry.1 = name then (name, value) else entry).map
        (·.1) = entries.map (·.1) := by
      rw [List.map_map]
      refine List.map_congr_left fun entry _ => ?_
      by_cases he : entry.1 = name <;> simp [he]
    rwa [hkeys]
  case isFalse hnone =>
    have hnew : name ∉ entries.map (·.1) := by simpa using hnone
    simpa [List.nodup_append] using ⟨h, fun a b hb ha => hnew (by simpa [← ha] using ⟨b, hb⟩)⟩

/-! ## Distinct names -/

/-- No table inside a setting, at any depth, has two entries of one name. -/
inductive Distinct : Setting → Prop
  | intro {s : Setting} (names : (s.entries.map (·.1)).Nodup)
      (entries : ∀ entry ∈ s.entries, Distinct entry.2) (items : ∀ item ∈ s.items, Distinct item) :
      Distinct s

namespace Distinct

variable {s value : Setting} {name : String}

theorem nodup (h : s.Distinct) : (s.entries.map (·.1)).Nodup :=
  h.casesOn fun names _ _ => names

theorem of_mem_entries (h : s.Distinct) {entry : String × Setting} (he : entry ∈ s.entries) :
    entry.2.Distinct :=
  h.casesOn (fun _ entries _ he => entries _ he) he

theorem of_mem_items (h : s.Distinct) {item : Setting} (hi : item ∈ s.items) : item.Distinct :=
  h.casesOn (fun _ _ items hi => items _ hi) hi

theorem of_lookup (h : s.Distinct) (hl : s.entries.lookup name = some value) : value.Distinct :=
  h.of_mem_entries (mem_of_lookup_eq_some hl)

theorem table {entries : List (String × Setting)} (hn : (entries.map (·.1)).Nodup)
    (he : ∀ entry ∈ entries, entry.2.Distinct) : (Setting.table entries).Distinct :=
  .intro hn he (by simp [items])

theorem list {items : List Setting} (h : ∀ item ∈ items, item.Distinct) :
    (Setting.list items).Distinct :=
  .intro (by simp [Setting.entries]) (by simp [Setting.entries]) h

theorem single (he : s.entries = []) (hi : s.items = []) : s.Distinct :=
  .intro (by simp [he]) (by simp [he]) (by simp [hi])

theorem putEntry {entries : List (String × Setting)} (h : (Setting.table entries).Distinct)
    (hv : value.Distinct) : (Setting.table (putEntry entries name value)).Distinct := by
  refine table (nodup_putEntry h.nodup name value) fun entry he => ?_
  obtain rfl | he := mem_putEntry he
  · exact hv
  · exact h.of_mem_entries he

theorem entries_table (h : s.Distinct) : (Setting.table s.entries).Distinct :=
  table h.nodup fun _ he => h.of_mem_entries he

end Distinct

/-! ## One value over another -/

def isTable : Setting → Bool
  | .table _ => true
  | _ => false

def at? : List String → Setting → Option Setting
  | [], s => some s
  | name :: names, s => (s.entries.lookup name).bind (at? names)

/-- A setting says nothing about the end of a way: the way ends early, at a table. -/
def Spares : List String → Setting → Prop
  | name :: names, .table entries => ∀ value, entries.lookup name = some value → Spares names value
  | _, _ => False

variable {value x existing : Setting} {way inner : List String}

theorem overlay_of_isTable_eq_false (h : value.isTable = false) (e : Option Setting) :
    overlay value e = value := by
  cases value <;> first | rfl | simp [isTable] at h

theorem lookup_overlayEntries {entries : List (String × Setting)}
    (hn : (entries.map (·.1)).Nodup) (existing : Setting) (name : String) :
    (overlayEntries entries existing).entries.lookup name =
      match entries.lookup name with
      | some value => some (overlay value (existing.entries.lookup name))
      | none => existing.entries.lookup name := by
  induction entries generalizing existing with
  | nil => rfl
  | cons entry entries ih =>
    obtain ⟨key, value⟩ := entry
    rw [List.map_cons, List.nodup_cons] at hn
    rw [overlayEntries, ih hn.2]
    simp only [Setting.entries, lookup_putEntry, List.lookup_cons]
    by_cases hk : name = key
    · subst hk
      have hnone : entries.lookup name = none := lookup_eq_none_iff_notMem.mpr hn.1
      simp [hnone]
    · simp [hk, beq_eq_false_iff_ne.mpr hk]

theorem at?_overlay_eq_some (hd : value.Distinct) (h : at? way value = some x)
    (hx : x.isTable = false) (e : Option Setting) : at? way (overlay value e) = some x := by
  induction way generalizing value e with
  | nil =>
    cases h
    rw [overlay_of_isTable_eq_false hx, at?]
  | cons name way ih =>
    obtain ⟨inner, hi, hx'⟩ := Option.bind_eq_some_iff.mp h
    cases value with
    | table entries =>
      have hn : (entries.map (·.1)).Nodup := hd.nodup
      have hl : entries.lookup name = some inner := hi
      rw [overlay, at?, lookup_overlayEntries hn]
      simpa [hl] using ih (hd.of_lookup hi) hx' _
    | _ => simp [Setting.entries] at hi

theorem at?_overlay_of_spares (hd : value.Distinct) (h : Spares way value) (e : Option Setting) :
    at? way (overlay value e) = e.bind (at? way) := by
  induction way generalizing value e with
  | nil => exact h.elim
  | cons name way ih =>
    cases value with
    | table entries =>
      have hn : (entries.map (·.1)).Nodup := hd.nodup
      rw [overlay, at?, lookup_overlayEntries hn]
      have he : (e.getD (.table [])).entries.lookup name =
          e.bind fun s => s.entries.lookup name := by cases e <;> rfl
      cases hl : entries.lookup name with
      | none =>
        simp only [he]
        cases e <;> rfl
      | some inner =>
        simp only [he, Option.bind_some, ih (hd.of_lookup hl) (h inner hl)]
        cases e <;> rfl
    | _ => exact h.elim

/-! ## A value at the end of a way -/

/-- A way of steps leaves a way of names by another name, before either ends. -/
def Apart : List Step → List String → Prop
  | .name a :: steps, b :: names => a = b → Apart steps names
  | _, _ => False

theorem not_apart_nil (steps : List Step) : ¬ Apart steps [] := by
  cases steps with
  | nil => exact id
  | cons step steps => cases step <;> exact id

theorem at?_overlayAt (value : Setting) (way inner : List String) (e : Option Setting) :
    at? (way ++ inner) (overlayAt value (way.map .name) e) =
      at? inner (overlay value (e.bind (at? way))) := by
  induction way generalizing e with
  | nil => cases e <;> rfl
  | cons name way ih =>
    simp only [List.map_cons, List.cons_append, overlayAt, at?, Setting.entries, lookup_putEntry,
      if_true, Option.bind_some, ih]
    cases e <;> rfl

theorem at?_overlayAt_of_apart {steps : List Step} (h : Apart steps way) (value : Setting)
    (e : Option Setting) : at? way (overlayAt value steps e) = e.bind (at? way) := by
  induction way generalizing steps e with
  | nil => exact absurd h (not_apart_nil steps)
  | cons name way ih =>
    match steps, h with
    | .name a :: steps, h =>
      simp only [overlayAt, at?, Setting.entries, lookup_putEntry]
      by_cases ha : name = a
      · simp only [ha, if_true, Option.bind_some, ih (h ha.symm)]
        cases e <;> rfl
      · simp only [if_neg ha]
        cases e <;> rfl

theorem Spares.of_lookup {s : Setting} {name : String} (h : Spares (name :: way) s)
    (hl : s.entries.lookup name = some value) : Spares way value := by
  cases s with
  | table entries => exact h _ hl
  | _ => exact h.elim

theorem Spares.overlayAt {steps : List Step} (h : Apart steps way) (value : Setting)
    {e : Option Setting} (hs : ∀ s, e = some s → Spares way s) :
    Spares way (overlayAt value steps e) := by
  induction way generalizing steps e with
  | nil => exact absurd h (not_apart_nil steps)
  | cons name way ih =>
    match steps, h with
    | .name a :: steps, h =>
      intro v hv
      rw [lookup_putEntry] at hv
      have hold : ∀ v, (e.getD nothing).entries.lookup name = some v → Spares way v := by
        intro v hv
        cases e with
        | none => simp [Setting.entries] at hv
        | some s => exact (hs s rfl).of_lookup hv
      -- An entry of another name leaves what is there; one of the same name goes on below it.
      by_cases ha : name = a
      · subst ha
        cases hv.symm.trans (if_pos rfl)
        exact ih (h rfl) hold
      · exact hold v (by rwa [if_neg ha] at hv)

namespace Distinct

theorem overlayEntries {entries : List (String × Setting)} (he : existing.Distinct)
    (h : ∀ entry ∈ entries, ∀ e : Option Setting, (∀ s, e = some s → s.Distinct) →
      (overlay entry.2 e).Distinct) : (overlayEntries entries existing).Distinct := by
  induction entries generalizing existing with
  | nil => exact he
  | cons entry entries ih =>
    rw [List.forall_mem_cons] at h
    exact ih (he.entries_table.putEntry (h.1 _ fun s hs => he.of_lookup hs)) h.2

theorem overlay (hv : value.Distinct) {e : Option Setting} (he : ∀ s, e = some s → s.Distinct) :
    (overlay value e).Distinct := by
  induction hv generalizing e with
  | @intro value names entries items ihe _ =>
    by_cases ht : value.isTable
    · cases value with
      | table entries =>
        refine overlayEntries ?_ fun entry hm e he => ihe entry hm he
        cases e with
        | none => exact single rfl rfl
        | some s => exact he s rfl
      | _ => simp [isTable] at ht
    · rw [overlay_of_isTable_eq_false (by simpa using ht)]
      exact .intro names entries items

theorem of_mem_putItem {items : List Setting} (hi : ∀ item ∈ items, item.Distinct)
    (hv : value.Distinct) {place : Nat} {item : Setting} (h : item ∈ putItem items place value) :
    item.Distinct := by
  obtain h | rfl := List.mem_or_eq_of_mem_set h
  · obtain h | h := List.mem_append.mp h
    · exact hi item h
    · rw [List.eq_of_mem_replicate h]
      exact single rfl rfl
  · exact hv

theorem overlayAt (hv : value.Distinct) (steps : List Step) {e : Option Setting}
    (he : ∀ s, e = some s → s.Distinct) : (overlayAt value steps e).Distinct := by
  induction steps generalizing e with
  | nil => exact hv.overlay he
  | cons step steps ih =>
    have hd : (e.getD nothing).Distinct := by
      cases e with
      | none => exact single rfl rfl
      | some s => exact he s rfl
    cases step with
    | name name => exact hd.entries_table.putEntry (ih fun s hs => hd.of_lookup hs)
    | index index =>
      refine list fun item hm => of_mem_putItem (fun _ => hd.of_mem_items) (ih fun s hs => ?_) hm
      split at hs
      · cases hs
      · exact hd.of_mem_items (List.mem_of_getElem? hs)

end Distinct

/-! ## The way of a key -/

theorem wayOf_eq_name_cons (key : String) :
    ∃ name steps, wayOf key = .name name :: steps ∧ wayOf name = [.name name] := by
  cases hr : readWay? key with
  | none => exact ⟨key, [], by simp [wayOf, hr], by simp [wayOf, hr]⟩
  | some way =>
    obtain ⟨⟨step, rest⟩, ht, hr'⟩ := Option.bind_eq_some_iff.mp hr
    obtain ⟨steps, -, hway⟩ := Option.bind_eq_some_iff.mp hr'
    cases hway
    have hname (c : Char) (hc : c ∈ key.toList.takeWhile isNameChar) : isNameChar c = true :=
      List.mem_takeWhile_imp hc
    unfold takeName? at ht
    split at ht
    · cases ht
    · next hne =>
      cases ht
      refine ⟨_, steps, by rw [wayOf, hr]; rfl, ?_⟩
      -- Read again on its own, the name is taken whole.
      generalize key.toList.takeWhile isNameChar = name at hname hne
      have hall : name.takeWhile isNameChar = name := List.takeWhile_eq_self_iff.mpr hname
      have hnone : name.dropWhile isNameChar = [] := List.dropWhile_eq_nil_iff.mpr hname
      have htake : takeName? name = some (.name (String.ofList name), []) := by
        unfold takeName?
        rw [hall, hnone]
        cases name with
        | nil => exact (hne rfl).elim
        | cons => rfl
      simp [wayOf, readWay?, htake, readSteps?]

/-! ## Layers -/

variable {layer : List (String × Setting)} {layers : List (List (String × Setting))}

theorem overlayLayer_cons (entry : String × Setting) (layer : List (String × Setting))
    (existing : Setting) :
    overlayLayer (entry :: layer) existing =
      overlayLayer layer (overlayAt entry.2 (wayOf entry.1) (some existing)) := rfl

theorem overlayLayer_append (before after : List (String × Setting)) (existing : Setting) :
    overlayLayer (before ++ after) existing = overlayLayer after (overlayLayer before existing) :=
  List.foldl_append

theorem at?_overlayLayer_of_apart (h : ∀ entry ∈ layer, Apart (wayOf entry.1) way)
    (existing : Setting) : at? way (overlayLayer layer existing) = at? way existing := by
  induction layer generalizing existing with
  | nil => rfl
  | cons entry layer ih =>
    rw [List.forall_mem_cons] at h
    rw [overlayLayer_cons, ih h.2, at?_overlayAt_of_apart h.1, Option.bind_some]

theorem Spares.overlayLayer (h : ∀ entry ∈ layer, Apart (wayOf entry.1) way)
    (hs : Spares way existing) : Spares way (overlayLayer layer existing) := by
  induction layer generalizing existing with
  | nil => exact hs
  | cons entry layer ih =>
    rw [List.forall_mem_cons] at h
    exact ih h.2 (.overlayAt h.1 entry.2 fun s he => Option.some_inj.mp he ▸ hs)

theorem Distinct.overlayLayer (hl : ∀ entry ∈ layer, entry.2.Distinct) (he : existing.Distinct) :
    (overlayLayer layer existing).Distinct := by
  induction layer generalizing existing with
  | nil => exact he
  | cons entry layer ih =>
    rw [List.forall_mem_cons] at hl
    exact ih hl.2 (.overlayAt hl.1 _ fun s hs => Option.some_inj.mp hs ▸ he)

def Plain (entries : List (String × Setting)) : Prop :=
  ∀ entry ∈ entries, wayOf entry.1 = [.name entry.1]

theorem exists_overlayLayer_eq_table (layer : List (String × Setting))
    {entries : List (String × Setting)} (h : Plain entries) :
    ∃ entries', overlayLayer layer (.table entries) = .table entries' ∧ Plain entries' := by
  induction layer generalizing entries with
  | nil => exact ⟨entries, rfl, h⟩
  | cons entry layer ih =>
    obtain ⟨name, steps, hway, hname⟩ := wayOf_eq_name_cons entry.1
    rw [overlayLayer_cons, hway, overlayAt]
    refine ih fun other ho => ?_
    obtain rfl | ho := mem_putEntry ho
    · exact hname
    · exact h other ho

theorem overlayLayer_of_plain {entries : List (String × Setting)} (h : Plain entries)
    (existing : Setting) : overlayLayer entries existing = overlayEntries entries existing := by
  induction entries generalizing existing with
  | nil => rfl
  | cons entry entries ih =>
    rw [Plain, List.forall_mem_cons] at h
    rw [overlayLayer_cons, h.1, ih h.2]
    rfl

theorem overlayLayers_eq_overlay (defaults : Setting) (layers : List (List (String × Setting))) :
    overlayLayers defaults layers =
      overlay (overlayLayer layers.flatten (.table [])) (some defaults) := by
  have hmerged : layers.foldl (fun existing layer => overlayLayer layer existing) (.table []) =
      overlayLayer layers.flatten (.table []) := by
    simp only [overlayLayer, List.foldl_flatten]
  have hnil : Plain [] := by simp [Plain]
  obtain ⟨entries, htable, hplain⟩ := exists_overlayLayer_eq_table layers.flatten hnil
  rw [overlayLayers, hmerged, htable]
  exact overlayLayer_of_plain hplain defaults

/-- What an entry gives stands in the end unless a later entry, of its layer or another, meets its
way. -/
theorem at?_overlayLayers_of_last {key : String} {before after : List (String × Setting)}
    (hd : ∀ entry ∈ layers.flatten, entry.2.Distinct)
    (hl : layers.flatten = before ++ (key, value) :: after) (hkey : wayOf key = way.map .name)
    (hx : at? inner value = some x) (hs : x.isTable = false)
    (hafter : ∀ entry ∈ after, Apart (wayOf entry.1) (way ++ inner)) (defaults : Setting) :
    at? (way ++ inner) (overlayLayers defaults layers) = some x := by
  have hmerged : at? (way ++ inner) (overlayLayer layers.flatten (.table [])) = some x := by
    rw [hl, overlayLayer_append, overlayLayer_cons, at?_overlayLayer_of_apart hafter, hkey,
      at?_overlayAt]
    exact at?_overlay_eq_some (hd (key, value) (by simp [hl])) hx hs _
  rw [overlayLayers_eq_overlay]
  exact at?_overlay_eq_some (.overlayLayer hd (.single rfl rfl)) hmerged hs _

theorem at?_overlayLayers_of_apart (hd : ∀ entry ∈ layers.flatten, entry.2.Distinct)
    (hway : way ≠ []) (h : ∀ entry ∈ layers.flatten, Apart (wayOf entry.1) way)
    (defaults : Setting) : at? way (overlayLayers defaults layers) = at? way defaults := by
  have hs : Spares way (overlayLayer layers.flatten (.table [])) := by
    refine .overlayLayer h ?_
    cases way with
    | nil => exact (hway rfl).elim
    | cons name way => exact fun v hv => by simp at hv
  rw [overlayLayers_eq_overlay]
  exact at?_overlay_of_spares (.overlayLayer hd (.single rfl rfl)) hs _

end VolumeStore.Setting
