import StackMachine.Function.Basic

/-!
# Registries of functions

A registry holds functions of different names in the order of their names, which is the order of their code points.  Adding
a function replaces the one of the same name.  `Registry.find?_insert` says what looking up a name gives afterwards, and a
registry is determined by what looking up each name gives (`Registry.ext_find?`).
-/

namespace StackMachine

/-- Functions in the order of their names. -/
structure Registry where
  functions : List Function
  sorted : functions.Pairwise fun f g => f.name < g.name

namespace Registry

/-- The registry without functions. -/
def empty : Registry :=
  ⟨[], .nil⟩

/-- The function with the given name. -/
def find? (registry : Registry) (name : String) : Option Function :=
  registry.functions.find? fun f => f.name == name

/-- The names of the functions, in order. -/
def names (registry : Registry) : List String :=
  registry.functions.map Function.name

/-- Puts a function in its place, instead of the one of the same name. -/
def insertSorted (f : Function) : List Function → List Function
  | [] => [f]
  | g :: rest =>
    if f.name < g.name then f :: g :: rest
    else if f.name = g.name then f :: rest
    else g :: insertSorted f rest

private theorem lt_of_not_lt_of_ne {a b : String} (h : ¬ a < b) (hne : a ≠ b) : b < a :=
  Std.lt_of_le_of_ne (String.not_lt.1 h) hne.symm

theorem mem_insertSorted {f h : Function} {l : List Function} (hm : h ∈ insertSorted f l) : h = f ∨ h ∈ l := by
  induction l with
  | nil => simpa [insertSorted] using hm
  | cons g rest ih =>
    unfold insertSorted at hm
    split at hm
    · simpa using hm
    · split at hm
      · rcases List.mem_cons.1 hm with h | h
        · exact .inl h
        · exact .inr (List.mem_cons_of_mem _ h)
      · rcases List.mem_cons.1 hm with h | h
        · exact .inr (h ▸ List.mem_cons_self)
        · exact (ih h).imp_right (List.mem_cons_of_mem _)

theorem sorted_insertSorted (f : Function) {l : List Function} (h : l.Pairwise fun f g => f.name < g.name) :
    (insertSorted f l).Pairwise fun f g => f.name < g.name := by
  induction l with
  | nil => simp [insertSorted]
  | cons g rest ih =>
    obtain ⟨hg, hrest⟩ := List.pairwise_cons.1 h
    unfold insertSorted
    split
    · rename_i hlt
      refine List.pairwise_cons.2 ⟨fun k hk => ?_, h⟩
      rcases List.mem_cons.1 hk with rfl | hk
      · exact hlt
      · exact String.lt_trans hlt (hg k hk)
    · rename_i hlt
      split
      · rename_i heq
        exact List.pairwise_cons.2 ⟨fun k hk => heq ▸ hg k hk, hrest⟩
      · rename_i hne
        refine List.pairwise_cons.2 ⟨fun k hk => ?_, ih hrest⟩
        rcases mem_insertSorted hk with rfl | hk
        · exact lt_of_not_lt_of_ne hlt hne
        · exact hg k hk

/-- The registry with a function added, instead of the one of the same name. -/
def insert (registry : Registry) (f : Function) : Registry :=
  ⟨insertSorted f registry.functions, sorted_insertSorted f registry.sorted⟩

/-! ### Looking up -/

@[simp] theorem find?_empty (name : String) : empty.find? name = none := rfl

private theorem find?_insertSorted (f : Function) {l : List Function}
    (h : l.Pairwise fun f g => f.name < g.name) (name : String) :
    (insertSorted f l).find? (fun g => g.name == name) =
      if f.name = name then some f else l.find? fun g => g.name == name := by
  induction l with
  | nil => by_cases hf : f.name = name <;> simp [insertSorted, hf]
  | cons g rest ih =>
    obtain ⟨hg, hrest⟩ := List.pairwise_cons.1 h
    unfold insertSorted
    split
    · by_cases hf : f.name = name <;> simp [List.find?_cons, hf]
    · split
      · rename_i heq
        by_cases hf : f.name = name
        · simp [hf]
        · have hgn : g.name ≠ name := heq ▸ hf
          simp [hf, hgn]
      · rename_i hlt hne
        by_cases hgn : g.name = name
        · have hf : f.name ≠ name := fun hf => hne (hf.trans hgn.symm)
          simp [hgn, hf]
        · simp [hgn, ih hrest]

/-- Looking up a name gives the function added last under it. -/
theorem find?_insert (registry : Registry) (f : Function) (name : String) :
    (registry.insert f).find? name = if f.name = name then some f else registry.find? name :=
  find?_insertSorted f registry.sorted name

/-- A function that is found has the name that was looked up. -/
theorem name_of_find? {registry : Registry} {name : String} {f : Function} (h : registry.find? name = some f) :
    f.name = name := by
  simpa using List.find?_some h

private theorem find?_eq_some_iff_of_sorted {l : List Function} (h : l.Pairwise fun f g => f.name < g.name)
    (f : Function) : (l.find? fun g => g.name == f.name) = some f ↔ f ∈ l := by
  refine ⟨List.mem_of_find?_eq_some, fun hm => ?_⟩
  induction l with
  | nil => cases hm
  | cons g rest ih =>
    obtain ⟨hg, hrest⟩ := List.pairwise_cons.1 h
    rcases List.mem_cons.1 hm with rfl | hm
    · simp
    · have hne : g.name ≠ f.name := fun heq => String.lt_irrefl _ (heq ▸ hg f hm)
      simp [hne, ih hrest hm]

/-- A function of the registry is found under its name. -/
theorem find?_eq_some_iff {registry : Registry} {f : Function} :
    registry.find? f.name = some f ↔ f ∈ registry.functions :=
  find?_eq_some_iff_of_sorted registry.sorted f

private theorem eq_of_mem_iff {l k : List Function} (hl : l.Pairwise fun f g => f.name < g.name)
    (hk : k.Pairwise fun f g => f.name < g.name) (hmem : ∀ f, f ∈ l ↔ f ∈ k) : l = k := by
  induction l generalizing k with
  | nil => exact (List.eq_nil_iff_forall_not_mem.2 fun f hf => by simpa using (hmem f).2 hf).symm
  | cons f l ih =>
    cases k with
    | nil => simpa using (hmem f).1 List.mem_cons_self
    | cons g k =>
      obtain ⟨hf, hltail⟩ := List.pairwise_cons.1 hl
      obtain ⟨hg, hktail⟩ := List.pairwise_cons.1 hk
      have heq : f = g := by
        rcases List.mem_cons.1 ((hmem f).1 List.mem_cons_self) with h | h
        · exact h
        · rcases List.mem_cons.1 ((hmem g).2 List.mem_cons_self) with h' | h'
          · exact h'.symm
          · exact absurd (hf g h') (String.lt_asymm (hg f h))
      subst heq
      congr 1
      refine ih hltail hktail fun h => ⟨fun hm => ?_, fun hm => ?_⟩
      · rcases List.mem_cons.1 ((hmem h).1 (List.mem_cons_of_mem _ hm)) with rfl | h'
        · exact absurd (hf _ hm) (String.lt_irrefl _)
        · exact h'
      · rcases List.mem_cons.1 ((hmem h).2 (List.mem_cons_of_mem _ hm)) with rfl | h'
        · exact absurd (hg _ hm) (String.lt_irrefl _)
        · exact h'

/-- A registry is determined by what looking up each name gives. -/
theorem ext_find? {r s : Registry} (h : ∀ name, r.find? name = s.find? name) : r = s := by
  have hf : r.functions = s.functions := by
    refine eq_of_mem_iff r.sorted s.sorted fun f => ?_
    rw [← find?_eq_some_iff, ← find?_eq_some_iff, h]
  cases r
  cases s
  cases hf
  rfl

end Registry

end StackMachine
