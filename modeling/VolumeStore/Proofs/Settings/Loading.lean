import VolumeStore.Proofs.Settings.Layers
import VolumeStore.Proofs.Toml.DistinctKeys
import VolumeStore.Settings.Load

/-!
# What is loaded

Settings written as a table are read back as they were, and what is loaded has no fault. Where
nothing is set the defaults are loaded, and they have no fault. A variable of the environment wins
over the file, and the file over the defaults.
-/

namespace VolumeStore

/-! ## Faults -/

theorem StoreSettings.fault?_eq_none_iff (s : StoreSettings) :
    s.fault? = none ↔
      s.bindAddress ≠ "" ∧ s.storeRoot ≠ "" ∧ s.volumes ≠ [] ∧
        (∀ name ∈ s.volumes, isVolumeName name = true) ∧ s.maxClients ≠ 0 ∧
        minCommandLimit ≤ s.maxCommandLength.toNat ∧ s.maxPayload ≠ 0 := by
  have hnames : (∀ name ∈ s.volumes, isVolumeName name = true) ↔
      s.volumes.find? (fun name => !isVolumeName name) = none := by
    simp [List.find?_eq_none]
  rw [hnames]
  unfold fault?
  grind

theorem ClientSettings.fault?_eq_none_iff (s : ClientSettings) :
    s.fault? = none ↔
      s.storeAddress ≠ "" ∧ isVolumeName s.volume = true ∧ s.connectTimeout ≠ 0 ∧
        s.requestTimeout ≠ 0 ∧ s.maxPayload ≠ 0 := by
  unfold fault?
  grind

/-! ## Reading what was written -/

@[simp]
theorem Setting.toWord_ofWord (n : UInt64) : (Setting.ofWord n).toWord = .ok n := by
  simp [Setting.ofWord, Setting.toWord]

@[simp]
theorem Setting.toTexts_map_text (texts : List String) :
    (Setting.list (texts.map .text)).toTexts = .ok texts := by
  rw [Setting.toTexts]
  induction texts with
  | nil => rfl
  | cons text texts ih =>
    rw [List.map_cons, List.mapM_cons, ih]
    rfl

theorem StoreSettings.ofSetting_toSetting (s : StoreSettings) :
    StoreSettings.ofSetting s.toSetting = .ok s := by
  have hport : (Setting.integer s.tcpPort.toNat).toWord = .ok s.tcpPort.toUInt64 := by
    simp [Setting.toWord]
  simp [ofSetting, setting, toSetting, Setting.field, List.lookup_cons, Setting.toText, hport, bind,
    Except.bind]
  rfl

theorem ClientSettings.ofSetting_toSetting (s : ClientSettings) :
    ClientSettings.ofSetting s.toSetting = .ok s := by
  simp [ofSetting, setting, toSetting, Setting.field, List.lookup_cons, Setting.toText, bind,
    Except.bind]
  rfl

namespace AllSettings

variable {tree : Host.Tree} {path : String} {environment : List (String × String)}
  {layer : List (String × Setting)}

theorem ofSetting_table (s : AllSettings) :
    ofSetting (.table [("store", s.store.toSetting), ("client", s.client.toSetting)]) = .ok s := by
  simp [ofSetting, Setting.field, List.lookup_cons, StoreSettings.ofSetting_toSetting,
    ClientSettings.ofSetting_toSetting, bind, Except.bind]
  rfl

theorem fault?_defaults : ({} : AllSettings).fault? = none := by
  decide

/-! ## The layers -/

/-- The settings are loaded when the file is well formed, every field can be read from the merged
layers, and the result has no fault. -/
theorem load_eq_ok_iff {s : AllSettings} :
    load tree path environment = .ok s ↔
      ∃ layer, fileLayer tree path = .ok layer ∧
        ofSetting (Setting.overlayLayers defaults [layer, environmentLayer environment]) = .ok s ∧
        s.fault? = none := by
  unfold load
  cases fileLayer tree path with
  | error error => simp [bind, Except.bind]
  | ok layer =>
    cases hread : ofSetting
        (Setting.overlayLayers defaults [layer, environmentLayer environment]) with
    | error error => simp [bind, Except.bind, hread]
    | ok read =>
      simp only [bind, Except.bind, hread, Except.ok.injEq, exists_eq_left']
      cases hfault : read.fault? with
      | none =>
        simp only [pure, Except.pure, Except.ok.injEq]
        exact ⟨fun h => ⟨h, h ▸ hfault⟩, And.left⟩
      | some fault =>
        simp only [reduceCtorEq, false_iff, not_and]
        rintro rfl
        simp [hfault]

theorem distinct_of_fileLayer (h : fileLayer tree path = .ok layer) :
    ∀ entry ∈ layer, entry.2.Distinct := by
  unfold fileLayer at h
  split at h
  · cases h
    simp
  · split at h
    next settings hparse =>
      cases h
      exact fun entry he => (Toml.distinct_of_parse? hparse).of_mem_entries he
    · cases h

def putVariable (layer : List (String × Setting)) (v : String × String) :
    List (String × Setting) :=
  match variableKey? v.1 with
  | some key => Setting.putEntry layer key (.text v.2)
  | none => layer

theorem environmentLayer_eq_foldl (environment : List (String × String)) :
    environmentLayer environment = environment.foldl putVariable [] := rfl

theorem exists_text_of_mem_environmentLayer :
    ∀ entry ∈ environmentLayer environment, ∃ text, entry.2 = .text text := by
  rw [environmentLayer_eq_foldl]
  have hnil : ∀ entry ∈ ([] : List (String × Setting)), ∃ text, entry.2 = .text text := by simp
  generalize [] = layer at hnil
  induction environment generalizing layer with
  | nil => exact hnil
  | cons v environment ih =>
    refine ih _ fun entry he => ?_
    unfold putVariable at he
    split at he
    · obtain rfl | he := Setting.mem_putEntry he
      · exact ⟨_, rfl⟩
      · exact hnil entry he
    · exact hnil entry he

theorem environmentLayer_eq_nil (h : ∀ v ∈ environment, variableKey? v.1 = none) :
    environmentLayer environment = [] := by
  rw [environmentLayer_eq_foldl]
  induction environment with
  | nil => rfl
  | cons v environment ih =>
    rw [List.forall_mem_cons] at h
    rw [List.foldl_cons, putVariable, h.1]
    exact ih h.2

theorem distinct_of_mem_layers (h : fileLayer tree path = .ok layer) :
    ∀ entry ∈ [layer, environmentLayer environment].flatten, entry.2.Distinct := by
  intro entry he
  simp only [List.flatten_cons, List.flatten_nil, List.append_nil, List.mem_append] at he
  obtain he | he := he
  · exact distinct_of_fileLayer h entry he
  · obtain ⟨text, htext⟩ := exists_text_of_mem_environmentLayer entry he
    rw [htext]
    exact .single rfl rfl

/-- Without a file, and without a variable that counts, the defaults are loaded. -/
theorem load_of_nothing_set (hfile : document? tree path = none)
    (henvironment : ∀ v ∈ environment, variableKey? v.1 = none) :
    load tree path environment = .ok {} := by
  refine load_eq_ok_iff.mpr ⟨[], by rw [fileLayer, hfile], ?_, fault?_defaults⟩
  rw [environmentLayer_eq_nil henvironment]
  exact ofSetting_table {}

/-! ## Who wins -/

open Setting (Apart wayOf at? overlayLayers)

variable {way inner : List String} {key : String} {before after : List (String × Setting)}

theorem field_of_at? {s x : Setting} {side name : String} (h : at? [side, name] s = some x)
    (shape shape' : String) (count count' place place' : Nat) :
    (s.field shape count place side).bind (fun t => t.field shape' count' place' name) = .ok x := by
  obtain ⟨t, hside, hname⟩ := Option.bind_eq_some_iff.mp h
  obtain ⟨x', hname, hx⟩ := Option.bind_eq_some_iff.mp hname
  cases hx
  cases s with
  | table entries =>
    have hside' : entries.lookup side = some t := hside
    cases t with
    | table entries' =>
      have hname' : entries'.lookup name = some x := hname
      simp [Setting.field, hside', hname', Except.bind]
    | _ => simp [Setting.entries] at hname
  | _ => simp [Setting.entries] at hside

/-- A variable of the environment wins over the file and the defaults, and over the variables before
it. -/
theorem at?_variable {text : String} (h : fileLayer tree path = .ok layer)
    (hv : environmentLayer environment = before ++ (key, .text text) :: after)
    (hkey : wayOf key = way.map .name) (hafter : ∀ entry ∈ after, Apart (wayOf entry.1) way) :
    at? way (overlayLayers defaults [layer, environmentLayer environment]) =
      some (.text text) := by
  have hflatten : [layer, environmentLayer environment].flatten =
      (layer ++ before) ++ (key, .text text) :: after := by simp [hv]
  have hlast : at? (way ++ []) (overlayLayers defaults [layer, environmentLayer environment]) =
      some (.text text) :=
    Setting.at?_overlayLayers_of_last (distinct_of_mem_layers h) hflatten hkey rfl rfl
      (by simpa using hafter) defaults
  rwa [List.append_nil] at hlast

example : variableKey? "RAX_FS_STORE__MAX_CLIENTS" = some "store.max_clients" ∧
    wayOf "store.max_clients" = [.name "store", .name "max_clients"] := by
  decide

/-- The file wins over the defaults, where no variable of the environment and no later key at its
top meets the way. -/
theorem at?_file {value x : Setting} (h : fileLayer tree path = .ok layer)
    (hl : layer = before ++ (key, value) :: after) (hkey : wayOf key = way.map .name)
    (hx : at? inner value = some x) (hs : x.isTable = false)
    (hafter : ∀ entry ∈ after ++ environmentLayer environment,
      Apart (wayOf entry.1) (way ++ inner)) :
    at? (way ++ inner) (overlayLayers defaults [layer, environmentLayer environment]) = some x := by
  have hflatten : [layer, environmentLayer environment].flatten =
      before ++ (key, value) :: (after ++ environmentLayer environment) := by simp [hl]
  exact Setting.at?_overlayLayers_of_last (distinct_of_mem_layers h) hflatten hkey hx hs hafter _

/-- What neither the file nor the environment meets keeps its default. -/
theorem at?_default (h : fileLayer tree path = .ok layer) (hway : way ≠ [])
    (hfree : ∀ entry ∈ layer ++ environmentLayer environment, Apart (wayOf entry.1) way) :
    at? way (overlayLayers defaults [layer, environmentLayer environment]) = at? way defaults :=
  Setting.at?_overlayLayers_of_apart (distinct_of_mem_layers h) hway (by simpa using hfree) _

end AllSettings

end VolumeStore
