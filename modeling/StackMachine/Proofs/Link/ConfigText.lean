import StackMachine.Link.Config
import StackMachine.Proofs.Json.Records
import StackMachine.Proofs.Json.Values

/-!
# Configurations are read from their texts

A text that sets some fields of a configuration, in any order, is read as the default configuration with these fields set.
What is read is then accepted or refused just as the configuration is: `Config.parse_exact`.

Fields are followed by their keys: after `Config.override` a key stands for the value that was set, or else for the
default, which is also what reading a record finds under it.
-/

namespace StackMachine

namespace Config

/-- A field of a configuration with a value for it. -/
inductive Setting where
  | dataSegmentAlignment (value : UInt64)
  | stackSize (value : UInt64)
  | heapSize (value : UInt64)
  | staticDataAlignment (value : UInt64)
  | instructionLimit (limit : Option UInt64)
deriving DecidableEq, Repr

def Setting.key : Setting → String
  | .dataSegmentAlignment _ => "data_segment_alignment"
  | .stackSize _ => "stack_size"
  | .heapSize _ => "heap_size"
  | .staticDataAlignment _ => "static_data_alignment"
  | .instructionLimit _ => "instruction_limit"

def Setting.json : Setting → Json
  | .dataSegmentAlignment value | .stackSize value | .heapSize value | .staticDataAlignment value => .ofNat value.toNat
  | .instructionLimit limit => .ofOption (fun limit => .ofNat limit.toNat) limit

def Setting.apply (config : Config) : Setting → Config
  | .dataSegmentAlignment value => { config with dataSegmentAlignment := value }
  | .stackSize value => { config with stackSize := value }
  | .heapSize value => { config with heapSize := value }
  | .staticDataAlignment value => { config with staticDataAlignment := value }
  | .instructionLimit limit => { config with instructionLimit := limit }

def override (config : Config) (settings : List Setting) : Config :=
  settings.foldl Setting.apply config

/-- The object that holds just these settings. -/
def settingsJson (settings : List Setting) : Json :=
  .ofMembers (settings.map fun setting => (setting.key, setting.json))

/-- All fields of a configuration as settings, in order. -/
def settings (config : Config) : List Setting :=
  [.dataSegmentAlignment config.dataSegmentAlignment, .stackSize config.stackSize, .heapSize config.heapSize,
   .staticDataAlignment config.staticDataAlignment, .instructionLimit config.instructionLimit]

/-- Where the keys of the settings stand in a configuration are their values, and elsewhere is what was there before. -/
structure OverriddenFrom (before config : Config) (settings : List Setting) : Prop where
  set : ∀ setting ∈ settings, config.members.lookup setting.key = some setting.json
  kept : ∀ key, key ∉ settings.map Setting.key → config.members.lookup key = before.members.lookup key

/-! ### Fields under their keys -/

theorem lookup_members_apply (config : Config) (setting : Setting) (key : String) :
    (setting.apply config).members.lookup key =
      if key = setting.key then some setting.json else config.members.lookup key := by
  by_cases hkey : key = setting.key
  · subst hkey
    cases setting <;> simp [Setting.apply, Setting.key, Setting.json, members, List.lookup_cons]
  · have hbeq : (key == setting.key) = false := by simpa using hkey
    rw [if_neg hkey]
    cases setting <;> simp only [Setting.apply, members, List.lookup_cons, Setting.key] at hbeq ⊢ <;> rw [hbeq]

theorem override_cons (config : Config) (setting : Setting) (settings : List Setting) :
    config.override (setting :: settings) = (setting.apply config).override settings := rfl

theorem lookup_settings_eq_none {settings : List Setting} {key : String} (h : key ∉ settings.map Setting.key) :
    (settings.map fun setting => (setting.key, setting.json)).lookup key = none := by
  rw [List.lookup_eq_none_iff]
  intro member hmember
  obtain ⟨setting, hsetting, rfl⟩ := List.mem_map.1 hmember
  rw [bne_iff_ne]
  rintro rfl
  exact h (List.mem_map_of_mem hsetting)

/-- Under a key stands the value that was set, or what stood there before. -/
theorem lookup_members_override (config : Config) {settings : List Setting}
    (h : (settings.map Setting.key).Nodup) (key : String) :
    (config.override settings).members.lookup key =
      ((settings.map fun setting => (setting.key, setting.json)).lookup key).or (config.members.lookup key) := by
  induction settings generalizing config with
  | nil => rfl
  | cons setting settings ih =>
    rw [List.map_cons, List.nodup_cons] at h
    rw [override_cons, ih _ h.2, lookup_members_apply, List.map_cons, List.lookup_cons]
    by_cases hkey : key = setting.key
    · -- the settings that follow have other keys, so they keep this value
      subst hkey
      simp [lookup_settings_eq_none h.1]
    · have hbeq : (key == setting.key) = false := by simpa using hkey
      rw [if_neg hkey, hbeq]

theorem lookup_settings_of_mem {settings : List Setting} (h : (settings.map Setting.key).Nodup) {setting : Setting}
    (hmem : setting ∈ settings) :
    (settings.map fun setting => (setting.key, setting.json)).lookup setting.key = some setting.json := by
  induction settings with
  | nil => cases hmem
  | cons first settings ih =>
    rw [List.map_cons, List.nodup_cons] at h
    rw [List.map_cons, List.lookup_cons]
    rcases List.mem_cons.1 hmem with rfl | hmem
    · simp
    · have hne : setting.key ≠ first.key := by
        intro heq
        exact h.1 (heq ▸ List.mem_map_of_mem hmem)
      have hbeq : (setting.key == first.key) = false := by simpa using hne
      rw [hbeq]
      exact ih h.2 hmem

theorem overriddenFrom_override (config : Config) {settings : List Setting} (h : (settings.map Setting.key).Nodup) :
    OverriddenFrom config (config.override settings) settings := by
  constructor
  case set =>
    intro setting hmem
    rw [lookup_members_override config h, lookup_settings_of_mem h hmem, Option.some_or]
  case kept =>
    intro key hkey
    rw [lookup_members_override config h, lookup_settings_eq_none hkey, Option.none_or]

/-! ### Reading a record -/

/-- A configuration is read from the values of its fields. -/
theorem ofJson?_of_fields? {value : Json} {config : Config}
    (h : value.fields? fields = some (config.members.map Prod.snd)) : ofJson? value = some config := by
  have hlimit : (Json.ofOption (fun limit : UInt64 => Json.ofNat limit.toNat) config.instructionLimit).toOption?
      Json.toUInt64? = some config.instructionLimit :=
    Json.toOption?_ofOption Json.toUInt64?_ofNat (fun _ hnull => by cases hnull) _
  unfold ofJson?
  rw [h]
  simp only [members, List.map_cons, List.map_nil, Json.toUInt64?_ofNat, hlimit]
  rfl

/-- Reading finds under each key what was set, or else the default. -/
theorem fields?_settingsJson {settings : List Setting} (h : (settings.map Setting.key).Nodup) :
    (settingsJson settings).fields? fields = some ((override {} settings).members.map Prod.snd) := by
  have hkeys : ((settings.map fun setting => (setting.key, setting.json)).map Prod.fst).Nodup := by
    rw [List.map_map]
    exact h
  rw [settingsJson, Json.fields?_ofMembers _ hkeys, fields]
  apply Field.mapM_withDefault
  · rfl
  · decide
  · intro key _
    exact lookup_members_override {} h key

/-- A text that holds just some settings is read as the default configuration with these settings. -/
theorem parse_of_settings {settings : List Setting} (h : (settings.map Setting.key).Nodup) {text : List UInt8}
    (htext : Json.parse? text = some (settingsJson settings)) :
    Config.parse text = (override {} settings).validate.map fun _ => override {} settings := by
  rw [Config.parse, htext, Option.bind_some, ofJson?_of_fields? (fields?_settingsJson h)]

theorem settingsJson_settings (config : Config) : settingsJson config.settings = config.toJson := rfl

theorem nodup_key_settings (config : Config) : (config.settings.map Setting.key).Nodup := by
  show ["data_segment_alignment", "stack_size", "heap_size", "static_data_alignment", "instruction_limit"].Nodup
  decide

theorem override_settings (before config : Config) : before.override config.settings = config := rfl

/-- Configurations are read back from their texts, and texts that set some of the fields are read as the default with
these fields set; either way just what is valid is accepted. -/
theorem parse_exact :
    (∀ config : Config, Config.parse config.render = config.validate.map fun _ => config) ∧
    ∀ settings : List Setting, (settings.map Setting.key).Nodup →
      OverriddenFrom {} (override {} settings) settings ∧
      Json.parse? (settingsJson settings).render = some (settingsJson settings) ∧
      ∀ text, Json.parse? text = some (settingsJson settings) →
        Config.parse text = (override {} settings).validate.map fun _ => override {} settings := by
  refine ⟨fun config => ?_, fun settings h => ⟨overriddenFrom_override {} h, Json.parse?_render _, fun text htext => ?_⟩⟩
  · have htext : Json.parse? config.render = some (settingsJson config.settings) := by
      rw [settingsJson_settings]
      exact Json.parse?_render _
    have hparse := parse_of_settings config.nodup_key_settings htext
    rwa [override_settings] at hparse
  · exact parse_of_settings h htext

/-- Two of the fields, the last one first. -/
def lastAndThird : List Setting :=
  [.instructionLimit (some 18446744073709551615), .heapSize 4096]

theorem parse_exact_lastAndThird :
    (lastAndThird.map Setting.key).Nodup ∧
      Config.parse (settingsJson lastAndThird).render =
        .ok { heapSize := 4096, instructionLimit := some 18446744073709551615 } := by
  have h : (lastAndThird.map Setting.key).Nodup := by decide
  obtain ⟨-, hread, hparse⟩ := parse_exact.2 lastAndThird h
  refine ⟨h, ?_⟩
  rw [hparse _ hread]
  rfl

end Config

end StackMachine
