import VolumeStore.Proofs.Settings.Layers
import VolumeStore.Toml.Document

/-!
# No key is given twice

The tables under construction keep their keys apart at every depth, whichever lines and headers add
to them, so a document that is accepted has no table with two entries of one name.
-/

namespace VolumeStore.Toml

open Setting (Distinct lookup_eq_none_iff_notMem mem_of_lookup_eq_some)

/-! ## Tables under construction -/

/-- No table under a key, at any depth, has a key twice; nor has a finished value. -/
inductive Node.Tidy : Node → Prop
  | value {v : Setting} (h : Distinct v) : (Node.value v).Tidy
  | dotted {inner : Entries} (keys : (inner.map (·.1)).Nodup)
      (each : ∀ entry ∈ inner, entry.2.Tidy) : (Node.dotted inner).Tidy
  | headed {named : Bool} {inner : Entries} (keys : (inner.map (·.1)).Nodup)
      (each : ∀ entry ∈ inner, entry.2.Tidy) : (Node.headed named inner).Tidy
  | headedList {tables : List Entries} (keys : ∀ table ∈ tables, (table.map (·.1)).Nodup)
      (each : ∀ table ∈ tables, ∀ entry ∈ table, entry.2.Tidy) : (Node.headedList tables).Tidy

structure Tidy (entries : Entries) : Prop where
  keys : (entries.map (·.1)).Nodup
  each : ∀ entry ∈ entries, entry.2.Tidy

variable {entries entries' table : Entries} {key : String} {node : Node} {value : Setting}
  {path : List String}

theorem Node.Tidy.of_dotted {inner : Entries} (h : (Node.dotted inner).Tidy) : Toml.Tidy inner := by
  cases h with
  | dotted keys each => exact ⟨keys, each⟩

theorem Node.Tidy.of_headed {named : Bool} {inner : Entries} (h : (Node.headed named inner).Tidy) :
    Toml.Tidy inner := by
  cases h with
  | headed keys each => exact ⟨keys, each⟩

theorem Node.Tidy.of_headedList {tables : List Entries} (h : (Node.headedList tables).Tidy)
    (ht : table ∈ tables) : Toml.Tidy table := by
  cases h with
  | headedList keys each => exact ⟨keys table ht, each table ht⟩

theorem Node.tidy_headedList {tables : List Entries} (h : ∀ table ∈ tables, Toml.Tidy table) :
    (Node.headedList tables).Tidy :=
  .headedList (fun table ht => (h table ht).keys) fun table ht => (h table ht).each

namespace Tidy

theorem nil : Tidy [] :=
  ⟨by simp, by simp⟩

theorem of_lookup (h : Tidy entries) (hl : entries.lookup key = some node) : node.Tidy :=
  h.each _ (mem_of_lookup_eq_some hl)

theorem append (h : Tidy entries) (ht : Tidy table)
    (hd : ∀ entry ∈ entries, table.lookup entry.1 = none) : Tidy (entries ++ table) := by
  refine ⟨?_, fun entry he => ?_⟩
  · rw [List.map_append, List.nodup_append']
    refine ⟨h.keys, ht.keys, fun key hk ht => ?_⟩
    obtain ⟨entry, he, rfl⟩ := List.mem_map.mp hk
    exact lookup_eq_none_iff_notMem.mp (hd entry he) ht
  · obtain he | he := List.mem_append.mp he
    · exact h.each entry he
    · exact ht.each entry he

theorem add (h : Tidy entries) (hnew : entries.lookup key = none) (hn : node.Tidy) :
    Tidy (entries ++ [(key, node)]) := by
  refine h.append ⟨by simp, by simpa using hn⟩ fun entry he => ?_
  have hne : entry.1 ≠ key := by
    rintro rfl
    exact lookup_eq_none_iff_notMem.mp hnew (List.mem_map_of_mem he)
  simpa [lookup_eq_none_iff_notMem] using hne

theorem replaceEntry (h : Tidy entries) (hn : node.Tidy) :
    Tidy (replaceEntry key node entries) := by
  refine ⟨?_, fun entry he => ?_⟩
  · have hkeys : (Toml.replaceEntry key node entries).map (·.1) = entries.map (·.1) := by
      rw [Toml.replaceEntry, List.map_map]
      refine List.map_congr_left fun entry _ => ?_
      by_cases hk : entry.1 = key <;> simp [hk]
    rw [hkeys]
    exact h.keys
  · obtain ⟨old, hold, rfl⟩ := List.mem_map.mp he
    split
    · exact hn
    · exact h.each old hold

theorem addKey? (h : Tidy entries) (hv : Distinct value)
    (ha : addKey? value path entries = some entries') : Tidy entries' := by
  fun_induction Toml.addKey? value path entries generalizing entries' with
  | case1 | case2 | case6 => cases ha
  | case3 entries key hnone =>
    cases ha
    exact h.add (Option.not_isSome_iff_eq_none.mp hnone) (.value hv)
  | case4 entries key path hpath hnone ih =>
    obtain ⟨inner, hi, rfl⟩ := Option.map_eq_some_iff.mp ha
    have hinner := ih .nil hi
    exact h.add hnone (.dotted hinner.keys hinner.each)
  | case5 entries key path hpath inner hold ih =>
    obtain ⟨inner', hi, rfl⟩ := Option.map_eq_some_iff.mp ha
    have hinner := ih (h.of_lookup hold).of_dotted hi
    exact h.replaceEntry (.dotted hinner.keys hinner.each)

theorem addTable? {isList : Bool} (h : Tidy entries) (ht : Tidy table)
    (ha : addTable? isList table path entries = some entries') : Tidy entries' := by
  fun_induction Toml.addTable? isList table path entries generalizing entries' with
  -- First the cases without a result: a key that is taken, or that names no table.
  | case1 | case5 | case7 | case10 | case12 => cases ha
  | case2 key entries _ hnone =>
    cases ha
    exact h.add hnone (Node.tidy_headedList (by simpa using ht))
  | case3 key entries _ hnone =>
    cases ha
    exact h.add hnone (.headed ht.keys ht.each)
  | case4 key entries old _ hold hdisjoint =>
    cases ha
    have hboth : Tidy (old ++ table) := by
      refine (h.of_lookup hold).of_headed.append ht fun entry he => ?_
      simpa using List.all_eq_true.mp hdisjoint entry he
    exact h.replaceEntry (.headed hboth.keys hboth.each)
  | case6 key entries tables _ hold =>
    cases ha
    refine h.replaceEntry (Node.tidy_headedList fun other ho => ?_)
    obtain ho | ho := List.mem_append.mp ho
    · exact (h.of_lookup hold).of_headedList ho
    · rwa [List.mem_singleton.mp ho]
  -- From here on more names follow the first one.
  | case8 key path entries _ hnone ih =>
    obtain ⟨inner, hi, rfl⟩ := Option.map_eq_some_iff.mp ha
    have hinner := ih .nil hi
    exact h.add hnone (.headed hinner.keys hinner.each)
  | case9 key path entries _ named inner hold ih =>
    obtain ⟨inner', hi, rfl⟩ := Option.map_eq_some_iff.mp ha
    have hinner := ih (h.of_lookup hold).of_headed hi
    exact h.replaceEntry (.headed hinner.keys hinner.each)
  | case11 key path entries _ tables hold last hlast ih =>
    obtain ⟨last', hl, rfl⟩ := Option.map_eq_some_iff.mp ha
    have htables (old : Entries) (ho : old ∈ tables) : Tidy old :=
      (h.of_lookup hold).of_headedList ho
    have hlast' : Tidy last' := ih (htables last (List.mem_of_getLast? hlast)) hl
    refine h.replaceEntry (Node.tidy_headedList fun other ho => ?_)
    obtain ho | ho := List.mem_append.mp ho
    · exact htables other (List.dropLast_subset tables ho)
    · rwa [List.mem_singleton.mp ho]

end Tidy

/-! ## Finished tables -/

theorem entriesToSettings_eq_map (entries : Entries) :
    entriesToSettings entries = entries.map fun entry => (entry.1, entry.2.toSetting) := by
  induction entries with
  | nil => rfl
  | cons entry entries ih => rw [entriesToSettings, ih]; rfl

theorem tablesToSettings_eq_map (tables : List Entries) :
    tablesToSettings tables = tables.map fun table => .table (entriesToSettings table) := by
  induction tables with
  | nil => rfl
  | cons table tables ih => rw [tablesToSettings, ih]; rfl

theorem distinct_table_entriesToSettings (keys : (entries.map (·.1)).Nodup)
    (each : ∀ entry ∈ entries, entry.2.toSetting.Distinct) :
    (Setting.table (entriesToSettings entries)).Distinct := by
  rw [entriesToSettings_eq_map]
  refine .table (by simpa [Function.comp_def] using keys) fun entry he => ?_
  obtain ⟨old, hold, rfl⟩ := List.mem_map.mp he
  exact each old hold

theorem Node.Tidy.distinct (h : node.Tidy) : node.toSetting.Distinct := by
  induction h with
  | value h => rwa [toSetting]
  | dotted keys _ ih => exact distinct_table_entriesToSettings keys ih
  | headed keys _ ih => exact distinct_table_entriesToSettings keys ih
  | headedList keys _ ih =>
    rw [toSetting, tablesToSettings_eq_map]
    refine .list fun item hi => ?_
    obtain ⟨table, ht, rfl⟩ := List.mem_map.mp hi
    exact distinct_table_entriesToSettings (keys table ht) (ih table ht)

theorem Tidy.distinct (h : Tidy entries) : (Setting.table (entriesToSettings entries)).Distinct :=
  distinct_table_entriesToSettings h.keys fun entry he => (h.each entry he).distinct

/-! ## Values -/

theorem distinct_of_number? {word : String} {ts rest : List Token}
    (h : number? word ts = some (value, rest)) : value.Distinct := by
  have whole (base : Nat) (digits : List Char)
      (hw : (integer? base digits).map (fun n => (Setting.integer n, ts)) = some (value, rest)) :
      value.Distinct := by
    obtain ⟨n, -, hn⟩ := Option.map_eq_some_iff.mp hw
    cases hn
    exact .single rfl rfl
  have double (result : Option (Double × List Token))
      (hx : result.map (fun found => (Setting.real found.1, found.2)) = some (value, rest)) :
      value.Distinct := by
    obtain ⟨x, -, hx⟩ := Option.map_eq_some_iff.mp hx
    cases hx
    exact .single rfl rfl
  -- Every shape of a word gives a value without keys.
  simp only [number?] at h
  split at h
  · exact whole _ _ h
  · exact whole _ _ h
  · exact whole _ _ h
  split at h
  · exact double _ h
  split at h
  · exact double _ h
  split at h
  · cases h
    exact .single rfl rfl
  split at h
  · cases h
    exact .single rfl rfl
  split at h
  · cases h
    exact .single rfl rfl
  · exact whole _ _ h

theorem distinct_of_datetime? {word : String} {colonRead : Bool} {ts rest : List Token}
    (h : datetime? word colonRead ts = some (value, rest)) : value.Distinct := by
  have text (front : String) (time? : Option (String × List Token))
      (ht : (time?.bind fun time => (Datetime.parse? (front ++ time.1)).bind fun datetime =>
        some (Setting.text datetime.render, time.2)) = some (value, rest)) : value.Distinct := by
    obtain ⟨time, -, ht⟩ := Option.bind_eq_some_iff.mp ht
    obtain ⟨datetime, -, ht⟩ := Option.bind_eq_some_iff.mp ht
    cases ht
    exact .single rfl rfl
  simp only [datetime?] at h
  split at h
  · exact text _ _ h
  split at h
  · exact text _ _ h
  · exact text _ _ h

theorem distinct_of_wordValue? {word : String} {ts rest : List Token}
    (h : wordValue? word ts = some (value, rest)) : value.Distinct := by
  simp only [wordValue?] at h
  split at h
  · cases h
    exact .single rfl rfl
  split at h
  · cases h
    exact .single rfl rfl
  split at h
  · exact distinct_of_number? h
  split at h
  · split at h
    · exact distinct_of_datetime? h
    split at h
    · exact distinct_of_datetime? h
    · exact distinct_of_number? h
  · cases h

theorem distinct_of_parts (fuel : Nat) :
    (∀ ts value rest, value? fuel ts = some (value, rest) → value.Distinct) ∧
      (∀ ts items rest, listItems? fuel ts = some (items, rest) →
        ∀ item ∈ items, item.Distinct) ∧
      ∀ entries ts entries' rest, inlineTable? fuel entries ts = some (entries', rest) →
        Tidy entries → Tidy entries' := by
  -- The three readers call each other on one unit of fuel less, so one induction carries what is
  -- said of all three.
  induction fuel with
  | zero => simp [value?, listItems?, inlineTable?]
  | succ fuel ih =>
    obtain ⟨hvalue, hitems, htable⟩ := ih
    refine ⟨fun ts value rest h => ?_, fun ts items rest h => ?_,
      fun entries ts entries' rest h ht => ?_⟩
    · simp only [value?] at h
      split at h
      · cases h
        exact .single rfl rfl
      · exact distinct_of_wordValue? h
      · exact distinct_of_number? h
      · split at h
        · cases h
          exact .single rfl rfl
        · obtain ⟨⟨entries, ts'⟩, he, h⟩ := Option.map_eq_some_iff.mp h
          cases h
          exact (htable _ _ _ _ he .nil).distinct
      · obtain ⟨⟨items, ts'⟩, hi, h⟩ := Option.map_eq_some_iff.mp h
        cases h
        exact .list (hitems _ _ _ hi)
      · cases h
    · simp only [listItems?] at h
      obtain ⟨ts₁, -, h⟩ := Option.bind_eq_some_iff.mp h
      split at h
      · cases h
        simp
      obtain ⟨⟨item, ts₂⟩, hv, h⟩ := Option.bind_eq_some_iff.mp h
      obtain ⟨ts₃, -, h⟩ := Option.bind_eq_some_iff.mp h
      split at h
      · obtain ⟨⟨others, ts₄⟩, ho, h⟩ := Option.bind_eq_some_iff.mp h
        cases h
        exact List.forall_mem_cons.mpr ⟨hvalue _ _ _ hv, hitems _ _ _ ho⟩
      · cases h
        simpa using hvalue _ _ _ hv
      · cases h
    · simp only [inlineTable?] at h
      obtain ⟨⟨path, ts₁⟩, -, h⟩ := Option.bind_eq_some_iff.mp h
      obtain ⟨ts₂, -, h⟩ := Option.bind_eq_some_iff.mp h
      obtain ⟨⟨value, ts₃⟩, hv, h⟩ := Option.bind_eq_some_iff.mp h
      obtain ⟨entries₁, ha, h⟩ := Option.bind_eq_some_iff.mp h
      -- One more key keeps the table tidy, whether it is the last one or not.
      have hadded : Tidy entries₁ := ht.addKey? (hvalue _ _ _ hv) ha
      split at h
      · cases h
        exact hadded
      · exact htable _ _ _ _ h hadded
      · cases h

/-! ## Lines -/

theorem path_ne_nil_of_path? {fuel : Nat} {ts rest : List Token}
    (h : path? fuel ts = some (path, rest)) : path ≠ [] := by
  cases fuel with
  | zero => cases h
  | succ fuel =>
    simp only [path?] at h
    obtain ⟨⟨key, ts₁⟩, -, h⟩ := Option.bind_eq_some_iff.mp h
    split at h
    · obtain ⟨⟨keys, ts₂⟩, -, h⟩ := Option.bind_eq_some_iff.mp h
      cases h
      simp
    · cases h
      simp

theorem header?_spec {fuel : Nat} {ts rest : List Token} {block : Block}
    (h : header? fuel ts = some (block, rest)) : block.path ≠ [] ∧ block.entries = [] := by
  simp only [header?] at h
  obtain ⟨⟨path, ts₁⟩, hp, h⟩ := Option.bind_eq_some_iff.mp h
  obtain ⟨ts₂, -, h⟩ := Option.bind_eq_some_iff.mp h
  have hpath : path ≠ [] := path_ne_nil_of_path? hp
  split at h <;>
  · obtain ⟨ts₃, -, h⟩ := Option.bind_eq_some_iff.mp h
    obtain ⟨ts₄, -, h⟩ := Option.bind_eq_some_iff.mp h
    cases h
    exact ⟨hpath, rfl⟩

theorem distinct_of_keyLine {fuel : Nat} {ts rest : List Token}
    (h : entry? fuel ts = some ((path, value), rest)) : value.Distinct := by
  simp only [ entry?] at h
  obtain ⟨⟨path, ts₁⟩, -, h⟩ := Option.bind_eq_some_iff.mp h
  obtain ⟨ts₂, -, h⟩ := Option.bind_eq_some_iff.mp h
  obtain ⟨⟨value, ts₃⟩, hv, h⟩ := Option.bind_eq_some_iff.mp h
  obtain ⟨ts₄, -, h⟩ := Option.bind_eq_some_iff.mp h
  cases h
  exact (distinct_of_parts fuel).1 _ _ _ hv

theorem Tidy.close? {block : Block} {document : Entries} (h : Tidy document)
    (hb : Tidy block.entries) (hfirst : block.path = [] → document = [])
    (hc : block.close? document = some entries) : Tidy entries := by
  unfold Block.close? at hc
  split at hc
  · next hpath =>
    cases hc
    simpa [hfirst hpath] using hb
  · exact h.addTable? hb hc

/-- The entries in front of all headers come first, before the document has any others. -/
theorem Tidy.lines? {fuel : Nat} {document : Entries} {block : Block} {ts : List Token}
    (h : Tidy document) (hb : Tidy block.entries) (hfirst : block.path = [] → document = [])
    (hl : lines? fuel document block ts = some entries) : Tidy entries := by
  induction fuel generalizing document block ts with
  | zero => cases hl
  | succ fuel ih =>
    simp only [Toml.lines?] at hl
    obtain ⟨ts₁, -, hl⟩ := Option.bind_eq_some_iff.mp hl
    -- The end and every header close the block before them; a key is put into it.
    split at hl
    · exact h.close? hb hfirst hl
    · obtain ⟨⟨next, ts₂⟩, hn, hl⟩ := Option.bind_eq_some_iff.mp hl
      obtain ⟨document₁, hc, hl⟩ := Option.bind_eq_some_iff.mp hl
      obtain ⟨hpath, hentries⟩ := header?_spec hn
      exact ih (h.close? hb hfirst hc) (hentries ▸ .nil) (fun hp => (hpath hp).elim) hl
    · obtain ⟨⟨⟨path, value⟩, ts₂⟩, he, hl⟩ := Option.bind_eq_some_iff.mp hl
      obtain ⟨entries₁, ha, hl⟩ := Option.bind_eq_some_iff.mp hl
      have hadded : Tidy entries₁ := hb.addKey? (distinct_of_keyLine he) ha
      refine ih h ?_ ?_ hl
      · exact hadded
      · exact hfirst

/-- A document that is accepted has no table, at any depth, with two entries of one name. -/
theorem distinct_of_parse? {document : String} (h : parse? document = some value) :
    value.Distinct := by
  obtain ⟨ts, -, h⟩ := Option.bind_eq_some_iff.mp h
  obtain ⟨entries, hl, h⟩ := Option.bind_eq_some_iff.mp h
  cases h
  exact (Tidy.lines? .nil .nil (fun _ => rfl) hl).distinct

end VolumeStore.Toml
