import StackMachine.Proofs.Function.Preservation
import StackMachine.Proofs.Link.Linking

/-!
# Histories of a loader

A history is the list of the functions that a loader was asked to load, whatever came of each call.  Under a name stands
the function that was accepted last under it (`Loader.find?_loadAll`), and this is all that a history leaves behind: the
size that is kept is computed from the functions that are registered, and a registry from what stands under each name.

`Loader.accounts_loadAll` gathers what holds after every history and what the next call then does.
`Loader.loadAll_same_of_lastAccepted` says that two histories that end with the same functions cannot be told apart.  The
functions that such a history ends with are its survivors, the ones accepted and not replaced later; histories with the
same survivors in any order are such histories (`perm_survivors_iff`).
-/

namespace StackMachine

/-- The loader after all calls of a history. -/
def Loader.loadAll (loader : Loader) (calls : List Function) : Loader :=
  calls.foldl (fun loader f => (loader.load f).2) loader

/-- The function of a history that was accepted last under a name. -/
def lastAccepted? (calls : List Function) (name : String) : Option Function :=
  calls.reverse.find? fun f => f.loadError?.isNone && f.name == name

/-- The functions of a history that were accepted and that no later call has replaced. -/
def survivors : List Function → List Function
  | [] => []
  | f :: later =>
    if f.loadError?.isNone && (lastAccepted? later f.name).isNone then f :: survivors later else survivors later

/-! ### Single calls -/

/-- Loaded is what is not patched yet and passes verification. -/
theorem Function.loadError?_eq_none_iff {f : Function} :
    f.loadError? = none ↔ f.patched = false ∧ f.verify = .ok () := by
  unfold Function.loadError?
  cases hpatched : f.patched with
  | true => simp
  | false => cases hverify : f.verify <;> simp

/-- A call is refused for a function that is patched, and otherwise with the error of verification. -/
theorem Loader.load_error_iff (loader : Loader) (f : Function) (error : MachineError) :
    (loader.load f).1 = .error error ↔
      (f.patched = true ∧ error = .code (.alreadyPatched f.name)) ∨
      (f.patched = false ∧ ∃ e, f.verify = .error e ∧ error = .code e) := by
  unfold Loader.load Function.loadError?
  cases hpatched : f.patched with
  | true => simp [eq_comm]
  | false => cases hverify : f.verify <;> simp [eq_comm]

theorem Loader.load_of_error {loader : Loader} {f : Function} {error : MachineError}
    (h : (loader.load f).1 = .error error) : (loader.load f).2 = loader := by
  unfold Loader.load at h ⊢
  split at h
  · rfl
  · cases h

/-- A call that is accepted answers with what stood under the name, and the loader then holds the function. -/
theorem Loader.load_of_ok {loader : Loader} {f : Function} {displaced : Option Function}
    (h : (loader.load f).1 = .ok displaced) :
    f.loadError? = none ∧ displaced = loader.registry.find? f.name ∧ (loader.load f).2 = loader.register f := by
  unfold Loader.load at h ⊢
  split at h
  · cases h
  · rename_i hf
    cases h
    exact ⟨hf, rfl, rfl⟩

theorem Loader.find?_load (loader : Loader) (f : Function) (name : String) :
    (loader.load f).2.registry.find? name =
      if f.loadError?.isNone && f.name == name then some f else loader.registry.find? name := by
  unfold Loader.load
  cases f.loadError? with
  | some e => rfl
  | none =>
    show (loader.registry.insert f).find? name = _
    rw [Registry.find?_insert]
    simp

/-! ### Whole histories -/

theorem lastAccepted?_cons (f : Function) (later : List Function) (name : String) :
    lastAccepted? (f :: later) name =
      (lastAccepted? later name).or (if f.loadError?.isNone && f.name == name then some f else none) := by
  unfold lastAccepted?
  rw [List.reverse_cons, List.find?_append, List.find?_singleton]

theorem name_of_lastAccepted? {calls : List Function} {name : String} {f : Function}
    (h : lastAccepted? calls name = some f) : f.name = name := by
  have hfound := List.find?_some h
  simp only [Bool.and_eq_true, beq_iff_eq] at hfound
  exact hfound.2

/-- Under a name stands the function accepted last, or what stood there before the history. -/
theorem Loader.find?_loadAll (loader : Loader) (calls : List Function) (name : String) :
    (loader.loadAll calls).registry.find? name = (lastAccepted? calls name).or (loader.registry.find? name) := by
  induction calls generalizing loader with
  | nil => rfl
  | cons f later ih =>
    show ((loader.load f).2.loadAll later).registry.find? name = _
    rw [ih, Loader.find?_load, lastAccepted?_cons]
    cases lastAccepted? later name with
    | some g => rfl
    | none =>
      cases f.loadError?.isNone && f.name == name <;> rfl

theorem Loader.config_loadAll (loader : Loader) (calls : List Function) :
    (loader.loadAll calls).config = loader.config := by
  induction calls generalizing loader with
  | nil => rfl
  | cons f later ih => exact (ih _).trans (loader.config_load f)

theorem Loader.Reached.loadAll {loader : Loader} (h : loader.Reached) (calls : List Function) :
    (loader.loadAll calls).Reached := by
  induction calls generalizing loader with
  | nil => exact h
  | cons f later ih => exact ih (h.load f)

theorem Loader.registry_ofConfig {config : Config} {loader : Loader} (h : Loader.ofConfig config = .ok loader) :
    loader.registry = .empty := by
  unfold Loader.ofConfig at h
  split at h
  · cases h
    rfl
  · cases h

/-- A loader that began empty holds under each name what its history accepted last. -/
theorem Loader.find?_loadAll_ofConfig {config : Config} {loader : Loader} (h : Loader.ofConfig config = .ok loader)
    (calls : List Function) (name : String) :
    (loader.loadAll calls).registry.find? name = lastAccepted? calls name := by
  rw [Loader.find?_loadAll, Loader.registry_ofConfig h, Registry.find?_empty, Option.or_none]

/-! ### The account -/

/-- What holds of a loader after a history, and what one more call does then. -/
structure Loader.Accounts (loader : Loader) (calls : List Function) : Prop where
  /-- The size that is kept is that of the functions that are registered now. -/
  size_eq : loader.staticDataSize = Size.total (loader.registry.functions.map loader.footprint)
  /-- Registered under a name is the function that was accepted last under it. -/
  registered : ∀ name, loader.registry.find? name = lastAccepted? calls name
  keyed : ∀ f, f ∈ loader.registry.functions ↔ loader.registry.find? f.name = some f
  named : ∀ name f, loader.registry.find? name = some f → f.name = name
  acceptable : ∀ f ∈ loader.registry.functions, f.patched = false ∧ f.verify = .ok ()
  refuses : ∀ f error, (loader.load f).1 = .error error ↔
    (f.patched = true ∧ error = .code (.alreadyPatched f.name)) ∨
    (f.patched = false ∧ ∃ e, f.verify = .error e ∧ error = .code e)
  /-- A call that is refused leaves no trace. -/
  unchanged : ∀ f error, (loader.load f).1 = .error error → (loader.load f).2 = loader
  /-- A call that is accepted gives back what it replaces, and nothing else is lost. -/
  displaces : ∀ f displaced, (loader.load f).1 = .ok displaced →
    displaced = lastAccepted? calls f.name ∧
    ∀ name, (loader.load f).2.registry.find? name = if f.name = name then some f else loader.registry.find? name
  /-- What a replacement takes off has been added before. -/
  covered : ∀ name g, loader.registry.find? name = some g → loader.footprint g ≤ loader.staticDataSize
  balance : ∀ f displaced, (loader.load f).1 = .ok displaced →
    (loader.load f).2.staticDataSize + (displaced.map loader.footprint).getD 0 =
      loader.staticDataSize + loader.footprint f

/-- The footprint of a registered function is part of the size that is kept. -/
theorem Loader.Consistent.footprint_le {loader : Loader} (h : loader.Consistent) {name : String} {g : Function}
    (hg : loader.registry.find? name = some g) : loader.footprint g ≤ loader.staticDataSize := by
  rw [h.size_eq]
  exact Size.le_total_of_mem (List.mem_map_of_mem (List.mem_of_find?_eq_some hg))

/-- Loading adds the footprint of the function and takes off that of the function it replaces. -/
theorem Loader.Consistent.staticDataSize_register {loader : Loader} (h : loader.Consistent) (f : Function) :
    (loader.register f).staticDataSize + ((loader.registry.find? f.name).map loader.footprint).getD 0 =
      loader.staticDataSize + loader.footprint f := by
  have hle : ((loader.registry.find? f.name).map loader.footprint).getD 0 ≤ loader.staticDataSize := by
    cases hfound : loader.registry.find? f.name with
    | none => exact Nat.zero_le _
    | some g => exact h.footprint_le hfound
  show loader.staticDataSize + loader.footprint f - _ + _ = _
  omega

/-- The account of a loader is right after every history of accepted, replacing and refused calls. -/
theorem Loader.accounts_loadAll {config : Config} {loader : Loader} (h : Loader.ofConfig config = .ok loader)
    (calls : List Function) : (loader.loadAll calls).Accounts calls := by
  have hconsistent := ((Loader.Reached.ofConfig h).loadAll calls).consistent
  have hregistered := Loader.find?_loadAll_ofConfig h calls
  constructor
  case size_eq => exact hconsistent.size_eq
  case registered => exact hregistered
  case keyed =>
    intro f
    exact Registry.find?_eq_some_iff.symm
  case named =>
    intro name f hf
    exact Registry.name_of_find? hf
  case acceptable =>
    intro f hf
    exact Function.loadError?_eq_none_iff.1 (hconsistent.accepted f hf)
  case refuses => exact Loader.load_error_iff _
  case unchanged =>
    intro f error herror
    exact Loader.load_of_error herror
  case displaces =>
    intro f displaced hok
    obtain ⟨hf, rfl, -⟩ := Loader.load_of_ok hok
    refine ⟨hregistered f.name, fun name => ?_⟩
    rw [Loader.find?_load, hf]
    simp
  case covered =>
    intro name g hg
    exact hconsistent.footprint_le hg
  case balance =>
    intro f displaced hok
    obtain ⟨-, rfl, hnext⟩ := Loader.load_of_ok hok
    rw [hnext]
    exact hconsistent.staticDataSize_register f

/-- A function that is replaced by another of its name, with a call in between that is refused. -/
def replacingHistory : List Function :=
  [{ sharedLoad with name := "greeting" }, { greeting with patched := true }, greeting, sharedLoad]

theorem Loader.accounts_loadAll_replacingHistory :
    (Loader.loadAll {} replacingHistory).Accounts replacingHistory ∧
      lastAccepted? replacingHistory "greeting" = some greeting := by
  refine ⟨Loader.accounts_loadAll (show Loader.ofConfig {} = .ok {} from rfl) _, ?_⟩
  decide +kernel

/-! ### Histories that end alike -/

private theorem mem_survivors_cons {f g : Function} {later : List Function} :
    f ∈ survivors (g :: later) ↔
      (f = g ∧ g.loadError?.isNone = true ∧ lastAccepted? later g.name = none) ∨ f ∈ survivors later := by
  have hiff : (g.loadError?.isNone && (lastAccepted? later g.name).isNone) = true ↔
      g.loadError?.isNone = true ∧ lastAccepted? later g.name = none := by simp
  rw [survivors]
  split
  · rename_i hkept
    rw [List.mem_cons, and_iff_left (hiff.1 hkept)]
  · rename_i hdropped
    exact (or_iff_right fun h => hdropped (hiff.2 h.2)).symm

/-- A survivor is what the history accepted last under its name. -/
theorem mem_survivors {calls : List Function} {f : Function} :
    f ∈ survivors calls ↔ lastAccepted? calls f.name = some f := by
  induction calls with
  | nil => simp [survivors, lastAccepted?]
  | cons g later ih =>
    rw [mem_survivors_cons, ih, lastAccepted?_cons]
    cases hlater : lastAccepted? later f.name with
    | some k =>
      -- `g` is no survivor if it has the name of `f`
      rw [Option.some_or]
      refine or_iff_right ?_
      rintro ⟨rfl, -, hnone⟩
      rw [hlater] at hnone
      cases hnone
    | none =>
      rw [Option.none_or]
      constructor
      · rintro (⟨rfl, haccepted, -⟩ | hlast)
        · simp [haccepted]
        · cases hlast
      · intro hlast
        split at hlast
        · rename_i haccepted
          cases hlast
          exact .inl ⟨rfl, (Bool.and_eq_true_iff.1 haccepted).1, hlater⟩
        · cases hlast

theorem lastAccepted?_eq_some_iff {calls : List Function} {name : String} {f : Function} :
    lastAccepted? calls name = some f ↔ f.name = name ∧ f ∈ survivors calls := by
  rw [mem_survivors]
  constructor
  · intro hlast
    have hname := name_of_lastAccepted? hlast
    exact ⟨hname, by rw [hname, hlast]⟩
  · rintro ⟨rfl, hlast⟩
    exact hlast

theorem nodup_survivors (calls : List Function) : (survivors calls).Nodup := by
  induction calls with
  | nil => exact List.Pairwise.nil
  | cons f later ih =>
    rw [survivors]
    split
    · rename_i hkept
      refine List.nodup_cons.2 ⟨fun hmem => ?_, ih⟩
      rw [mem_survivors.1 hmem] at hkept
      simp at hkept
    · exact ih

/-- Two histories have the same survivors exactly if each name ends with the same function. -/
theorem perm_survivors_iff {calls others : List Function} :
    (survivors calls).Perm (survivors others) ↔ ∀ name, lastAccepted? calls name = lastAccepted? others name := by
  rw [List.perm_ext_iff_of_nodup (nodup_survivors calls) (nodup_survivors others)]
  constructor
  · intro hmem name
    apply Option.ext
    intro f
    rw [lastAccepted?_eq_some_iff, lastAccepted?_eq_some_iff, hmem]
  · intro hlast f
    rw [mem_survivors, mem_survivors, hlast]

/-- A loader whose account is right is determined by its configuration and by what stands under each name. -/
theorem Loader.Consistent.ext_find? {a b : Loader} (ha : a.Consistent) (hb : b.Consistent)
    (hconfig : a.config = b.config) (hfind : ∀ name, a.registry.find? name = b.registry.find? name) : a = b := by
  have hregistry : a.registry = b.registry := Registry.ext_find? hfind
  have hfootprint : a.footprint = b.footprint := by
    funext f
    rw [Loader.footprint, Loader.footprint, hconfig]
  have hsize : a.staticDataSize = b.staticDataSize := by
    rw [ha.size_eq, hb.size_eq, hregistry, hfootprint]
  cases a
  cases b
  cases hconfig
  cases hregistry
  cases hsize
  rfl

/-- Histories that end with the same function under every name leave the same size and link alike; this covers every
reordering of the survivors, with calls that were refused or came to nothing anywhere in between. -/
theorem Loader.loadAll_same_of_lastAccepted {config : Config} {loader : Loader}
    (h : Loader.ofConfig config = .ok loader) (calls others : List Function) :
    ((survivors calls).Perm (survivors others) ↔ ∀ name, lastAccepted? calls name = lastAccepted? others name) ∧
    ((∀ name, lastAccepted? calls name = lastAccepted? others name) →
      (loader.loadAll calls).staticDataSize = (loader.loadAll others).staticDataSize ∧
      (loader.loadAll calls).link = (loader.loadAll others).link) := by
  refine ⟨perm_survivors_iff, fun hlast => ?_⟩
  have hreached := Loader.Reached.ofConfig h
  have heq : loader.loadAll calls = loader.loadAll others := by
    apply (hreached.loadAll calls).consistent.ext_find? (hreached.loadAll others).consistent
    · rw [Loader.config_loadAll, Loader.config_loadAll]
    · intro name
      rw [Loader.find?_loadAll_ofConfig h, Loader.find?_loadAll_ofConfig h, hlast]
  rw [heq]
  exact ⟨rfl, rfl⟩

theorem Loader.loadAll_same_of_lastAccepted_replacingHistory :
    (survivors replacingHistory).Perm (survivors [sharedLoad, greeting]) ∧
      (Loader.loadAll {} replacingHistory).staticDataSize = (Loader.loadAll {} [sharedLoad, greeting]).staticDataSize ∧
      (Loader.loadAll {} replacingHistory).link = (Loader.loadAll {} [sharedLoad, greeting]).link := by
  have hperm : (survivors replacingHistory).Perm (survivors [sharedLoad, greeting]) := by
    have hkept : survivors replacingHistory = [greeting, sharedLoad] := by decide +kernel
    have hall : survivors [sharedLoad, greeting] = [sharedLoad, greeting] := by decide +kernel
    rw [hkept, hall]
    exact List.Perm.swap ..
  obtain ⟨hiff, hsame⟩ := Loader.loadAll_same_of_lastAccepted (show Loader.ofConfig {} = .ok {} from rfl)
    replacingHistory [sharedLoad, greeting]
  exact ⟨hperm, hsame (hiff.1 hperm)⟩

end StackMachine
