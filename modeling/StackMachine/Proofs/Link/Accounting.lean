import StackMachine.Link.Loader
import StackMachine.Proofs.Function.Verified

/-!
# The account of a loader

A loader is reached from an accepted configuration by loading functions, whether they are accepted, replace another or
are refused.  However it is reached, the size it keeps is the sum of the footprints of the functions it holds, and each
of these is unpatched and accepted: `Loader.Reached.consistent`.  The step behind it is `sum_insert`: putting a function
into a registry adds its weight and takes away that of the function it replaces, whatever is weighed.
-/

namespace StackMachine

/-- The loaders that come from an accepted configuration and calls that load functions. -/
inductive Loader.Reached : Loader → Prop
  | ofConfig {config : Config} {loader : Loader} (h : Loader.ofConfig config = .ok loader) : Reached loader
  | load {loader : Loader} (h : Reached loader) (f : Function) : Reached (loader.load f).2

/-- The account of a loader is right, and its functions are ones that are loaded. -/
structure Loader.Consistent (loader : Loader) : Prop where
  alignment_pos : 0 < loader.config.staticDataAlignment.toNat
  size_eq : loader.staticDataSize = Size.total (loader.registry.functions.map loader.footprint)
  accepted : ∀ f ∈ loader.registry.functions, f.loadError? = none

/-! ### Weighing a registry -/

private theorem sum_insertSorted (f : Function) (weight : Function → Nat) {l : List Function}
    (h : l.Pairwise fun f g => f.name < g.name) :
    Size.total ((Registry.insertSorted f l).map weight) + ((l.find? fun g => g.name == f.name).map weight).getD 0 =
      Size.total (l.map weight) + weight f := by
  induction l with
  | nil => simp [Registry.insertSorted]
  | cons g rest ih =>
    obtain ⟨hg, hrest⟩ := List.pairwise_cons.1 h
    unfold Registry.insertSorted
    split
    · rename_i hlt
      -- no name from `g` on is that of `f`
      have hnone : (g :: rest).find? (fun k => k.name == f.name) = none := by
        rw [List.find?_eq_none]
        intro k hk heq
        have hname : k.name = f.name := by simpa using heq
        rcases List.mem_cons.1 hk with rfl | hk
        · exact String.lt_irrefl _ (hname ▸ hlt)
        · exact String.lt_asymm hlt (hname ▸ hg k hk)
      rw [hnone]
      simp only [List.map_cons, Size.total_cons, Option.map_none, Option.getD_none]
      omega
    · split
      · rename_i heq
        simp only [List.find?_cons, heq, beq_self_eq_true, List.map_cons, Size.total_cons, Option.map_some,
          Option.getD_some]
        omega
      · rename_i hne
        have hg' : (g.name == f.name) = false := by simpa using Ne.symm hne
        have hsum := ih hrest
        rw [List.find?_cons, hg']
        simp only [List.map_cons, Size.total_cons]
        omega

/-- Putting a function in adds its weight and takes away that of the function it replaces. -/
theorem Registry.sum_insert (registry : Registry) (f : Function) (weight : Function → Nat) :
    Size.total ((registry.insert f).functions.map weight) + ((registry.find? f.name).map weight).getD 0 =
      Size.total (registry.functions.map weight) + weight f :=
  sum_insertSorted f weight registry.sorted

/-! ### Loading -/

private theorem validate_ok {config : Config} (h : config.validate = .ok ()) :
    config.dataSegmentAlignment ≠ 0 ∧ config.staticDataAlignment ≠ 0 := by
  unfold Config.validate at h
  split at h
  · cases h
  · split at h
    · cases h
    · rename_i hdata hstatic
      exact ⟨hdata, hstatic⟩

private theorem toNat_pos {n : UInt64} (h : n ≠ 0) : 0 < n.toNat := by
  apply Nat.pos_of_ne_zero
  intro hzero
  exact h (UInt64.toNat_inj.1 hzero)

theorem Loader.consistent_ofConfig {config : Config} {loader : Loader} (h : Loader.ofConfig config = .ok loader) :
    loader.Consistent := by
  unfold Loader.ofConfig at h
  cases hvalid : config.validate with
  | error flaw =>
    rw [hvalid] at h
    cases h
  | ok _ =>
    rw [hvalid] at h
    cases h
    refine ⟨toNat_pos (validate_ok hvalid).2, rfl, ?_⟩
    intro f hf
    exact absurd hf (by simp [Registry.empty])

theorem Loader.config_load (loader : Loader) (f : Function) : (loader.load f).2.config = loader.config := by
  unfold Loader.load
  split <;> rfl

theorem Loader.Consistent.register {loader : Loader} (h : loader.Consistent) {f : Function}
    (hf : f.loadError? = none) : (loader.register f).Consistent := by
  refine ⟨h.alignment_pos, ?_, ?_⟩
  · have hsum := loader.registry.sum_insert f loader.footprint
    have hsize := h.size_eq
    show loader.staticDataSize + loader.footprint f - ((loader.registry.find? f.name).map loader.footprint).getD 0 =
      Size.total ((loader.registry.insert f).functions.map loader.footprint)
    omega
  · intro g hg
    rcases Registry.mem_insertSorted hg with rfl | hg
    · exact hf
    · exact h.accepted g hg

/-- Loading a function keeps the account right, also when the function is refused. -/
theorem Loader.Consistent.load {loader : Loader} (h : loader.Consistent) (f : Function) :
    (loader.load f).2.Consistent := by
  unfold Loader.load
  split
  · exact h
  · rename_i hf
    exact h.register hf

/-- The account of every loader is right. -/
theorem Loader.Reached.consistent {loader : Loader} (h : loader.Reached) : loader.Consistent := by
  induction h with
  | ofConfig h => exact Loader.consistent_ofConfig h
  | load _ f ih => exact ih.load f

/-- A function that is loaded is not patched, and some sequence of instructions makes it acceptable. -/
theorem Function.verifiedBy_of_loadError? {f : Function} (h : f.loadError? = none) :
    f.patched = false ∧ ∃ is, f.VerifiedBy is := by
  unfold Function.loadError? at h
  split at h
  · cases h
  · rename_i hpatched
    split at h
    · cases h
    · rename_i hverify
      exact ⟨by simpa using hpatched, Function.verify_eq_ok_iff.1 hverify⟩

end StackMachine
