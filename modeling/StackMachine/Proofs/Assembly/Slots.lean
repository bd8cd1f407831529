import StackMachine.Assembly.Allocation

/-!
# Slots handed out to variables

Whatever is asked of an allocator, one variable at a time or many at once, its slots are numbered without gaps, each
belongs to one variable, and the table of sizes agrees with the places of the variables (`Allocator.Dense`).

`allocate_ok` says once what a request that is granted can do.  From it follow what one request keeps (`Dense.allocate`)
and what a chain of granted requests keeps (`Grants`).  Asking for many variables is such a chain, up to the first
request that is refused (`allocateAll_error_iff`); so every history of calls is one, and `Allocator.steady_after` gathers
what holds after each.
-/

namespace StackMachine

namespace Allocator

/-- A call on an allocator, for one variable or for several. -/
inductive Call where
  | one (request : Variable)
  | all (requests : List Variable)

/-- What a call gives back, and the allocator after it. -/
def call (allocator : Allocator) : Call → Except AssemblyError (List ValueSource) × Allocator
  | .one request =>
    match allocator.allocate request with
    | .ok (source, next) => (.ok [source], next)
    | .error e => (.error e, allocator)
  | .all requests => allocator.allocateAll requests

/-- What a history of calls makes of a new allocator. -/
def after (calls : List Call) : Allocator :=
  calls.foldl (fun allocator c => (allocator.call c).2) {}

/-- The slots have the indices below their number, each has one owner, and the sizes are those in the table. -/
structure Dense (allocator : Allocator) : Prop where
  count_le : allocator.localSizes.length ≤ 256
  inUse : ∀ index : UInt8,
    (∃ id size, allocator.source? id = some (.slot index size)) ↔ index.toNat < allocator.localSizes.length
  owner_unique : ∀ {id id' : VariableId} {index : UInt8} {size size' : Nat},
    allocator.source? id = some (.slot index size) → allocator.source? id' = some (.slot index size') → id = id'
  size_eq : ∀ {id : VariableId} {index : UInt8} {size : Nat},
    allocator.source? id = some (.slot index size) → allocator.localSizes[index.toNat]? = some size
  /-- What stands for an address stands for the address of a slot that has an owner. -/
  addressed : ∀ {id : VariableId} {index : UInt8},
    allocator.source? id = some (.reference index) → ∃ owner size, allocator.source? owner = some (.slot index size)

/-- The requests are granted one after the other, with the given places. -/
inductive Grants : Allocator → List Variable → List ValueSource → Allocator → Prop
  | nil (allocator : Allocator) : Grants allocator [] [] allocator
  | cons {before middle after : Allocator} {request : Variable} {source : ValueSource} {requests : List Variable}
      {sources : List ValueSource} (hfirst : before.allocate request = .ok (source, middle))
      (hrest : Grants middle requests sources after) :
      Grants before (request :: requests) (source :: sources) after

/-! ### One request -/

/-- A request that is granted comes from a variable without a place.  It takes the next slot, or no slot and the address
of one that has an owner. -/
theorem allocate_ok {a next : Allocator} {request : Variable} {source : ValueSource}
    (h : a.allocate request = .ok (source, next)) :
    a.source? request.id = none ∧ next.sources = (request.id, source) :: a.sources ∧
    ((∃ type size, request.kind = .ofType type ∧ type.size = .ok size ∧ a.localSizes.length < 256 ∧
        source = .slot (UInt8.ofNat a.localSizes.length) size ∧ next.localSizes = a.localSizes ++ [size]) ∨
      ∃ referenced index size, request.kind = .referenceTo referenced ∧
        a.source? referenced = some (.slot index size) ∧ source = .reference index ∧
        next.localSizes = a.localSizes) := by
  obtain ⟨id, kind⟩ := request
  cases kind with
  | ofType type =>
    change a.allocateSlot id type = _ at h
    unfold Allocator.allocateSlot at h
    split at h
    · cases h
    · rename_i hnone
      split at h
      · cases h
      · rename_i size hsize
        split at h
        · rename_i hlt
          cases h
          exact ⟨hnone, rfl, .inl ⟨type, size, rfl, hsize, hlt, rfl, rfl⟩⟩
        · cases h
  | referenceTo referenced =>
    change a.allocateReference id referenced = _ at h
    unfold Allocator.allocateReference at h
    split at h
    · cases h
    · rename_i hnone
      split at h
      · rename_i index size howner
        cases h
        exact ⟨hnone, rfl, .inr ⟨referenced, index, size, rfl, howner, rfl, rfl⟩⟩
      · cases h
      · cases h

theorem source?_allocate {a next : Allocator} {request : Variable} {source : ValueSource}
    (h : a.allocate request = .ok (source, next)) (id : VariableId) :
    next.source? id = if id = request.id then some source else a.source? id := by
  obtain ⟨-, hsources, -⟩ := allocate_ok h
  unfold Allocator.source?
  rw [hsources, List.lookup_cons]
  by_cases hid : id = request.id
  · simp [hid]
  · have hne : (id == request.id) = false := by simpa using hid
    simp [hid, hne]

/-- No variable that has a place gets another one. -/
theorem source?_allocate_of_some {a next : Allocator} {request : Variable} {source held : ValueSource}
    (h : a.allocate request = .ok (source, next)) {id : VariableId} (hid : a.source? id = some held) :
    next.source? id = some held := by
  have hne : id ≠ request.id := by
    rintro rfl
    rw [(allocate_ok h).1] at hid
    cases hid
  rw [source?_allocate h, if_neg hne, hid]

theorem length_localSizes_allocate {a next : Allocator} {request : Variable} {source : ValueSource}
    (h : a.allocate request = .ok (source, next)) : a.localSizes.length ≤ next.localSizes.length := by
  obtain ⟨-, -, ⟨type, size, -, -, -, -, hsizes⟩ | ⟨referenced, index, size, -, -, -, hsizes⟩⟩ := allocate_ok h
  · rw [hsizes, List.length_append]
    omega
  · exact Nat.le_of_eq (congrArg List.length hsizes.symm)

private theorem toNat_nextIndex {n : Nat} (h : n < 256) : (UInt8.ofNat n).toNat = n :=
  UInt8.toNat_ofNat_of_lt h

theorem dense_empty : Dense {} := by
  refine ⟨Nat.zero_le _, ?_, ?_, ?_, ?_⟩
  · intro index
    simp [Allocator.source?]
  · intro id id' index size size' h
    cases h
  · intro id index size h
    cases h
  · intro id index h
    cases h

/-- A slot with the next index goes to a variable that has no place. -/
private theorem Dense.addSlot {a next : Allocator} (h : a.Dense) {request : Variable} {size : Nat}
    (hlt : a.localSizes.length < 256)
    (hok : a.allocate request = .ok (.slot (UInt8.ofNat a.localSizes.length) size, next))
    (hsizes : next.localSizes = a.localSizes ++ [size]) : next.Dense := by
  have hindex := toNat_nextIndex hlt
  have hlength : next.localSizes.length = a.localSizes.length + 1 := by simp [hsizes]
  -- a slot is the one just handed out, or was held before and then has a smaller index
  have hslot : ∀ {id : VariableId} {index : UInt8} {size' : Nat}, next.source? id = some (.slot index size') →
      (id = request.id ∧ index = UInt8.ofNat a.localSizes.length ∧ size' = size) ∨
      (a.source? id = some (.slot index size') ∧ index.toNat < a.localSizes.length) := by
    intro id index size' hid
    rw [source?_allocate hok] at hid
    split at hid
    · rename_i heq
      cases hid
      exact .inl ⟨heq, rfl, rfl⟩
    · exact .inr ⟨hid, (h.inUse index).1 ⟨id, size', hid⟩⟩
  constructor
  case count_le => omega
  case inUse =>
    intro index
    constructor
    · rintro ⟨id, size', hid⟩
      rcases hslot hid with ⟨-, rfl, -⟩ | ⟨-, hlow⟩
      · omega
      · omega
    · intro hlow
      by_cases hold : index.toNat < a.localSizes.length
      · obtain ⟨id, size', hid⟩ := (h.inUse index).2 hold
        exact ⟨id, size', source?_allocate_of_some hok hid⟩
      · have hlast : index.toNat = (UInt8.ofNat a.localSizes.length).toNat := by omega
        refine ⟨request.id, size, ?_⟩
        rw [source?_allocate hok, if_pos rfl, UInt8.toNat_inj.1 hlast]
  case owner_unique =>
    intro id id' index size₁ size₂ hid hid'
    rcases hslot hid with ⟨rfl, rfl, -⟩ | ⟨hold, hlow⟩
    · rcases hslot hid' with ⟨rfl, -, -⟩ | ⟨-, hlow⟩
      · rfl
      · omega
    · rcases hslot hid' with ⟨-, rfl, -⟩ | ⟨hold', -⟩
      · omega
      · exact h.owner_unique hold hold'
  case size_eq =>
    intro id index size' hid
    rw [hsizes]
    rcases hslot hid with ⟨-, rfl, rfl⟩ | ⟨hold, hlow⟩
    · rw [hindex, List.getElem?_append_right (Nat.le_refl _), Nat.sub_self]
      rfl
    · rw [List.getElem?_append_left hlow]
      exact h.size_eq hold
  case addressed =>
    intro id index hid
    rw [source?_allocate hok] at hid
    split at hid
    · cases hid
    · obtain ⟨owner, size', howner⟩ := h.addressed hid
      exact ⟨owner, size', source?_allocate_of_some hok howner⟩

/-- A variable that stands for an address holds no slot. -/
private theorem Dense.addReference {a next : Allocator} (h : a.Dense) {request : Variable} {referenced : VariableId}
    {index : UInt8} {size : Nat} (howner : a.source? referenced = some (.slot index size))
    (hok : a.allocate request = .ok (.reference index, next)) (hsizes : next.localSizes = a.localSizes) :
    next.Dense := by
  have hslot : ∀ {id : VariableId} {index' : UInt8} {size' : Nat},
      next.source? id = some (.slot index' size') ↔ a.source? id = some (.slot index' size') := by
    intro id index' size'
    constructor
    · intro hid
      rw [source?_allocate hok] at hid
      split at hid
      · cases hid
      · exact hid
    · exact source?_allocate_of_some hok
  constructor
  case count_le =>
    rw [hsizes]
    exact h.count_le
  case inUse =>
    intro index'
    simp only [hslot, hsizes]
    exact h.inUse index'
  case owner_unique =>
    intro id id' index' size₁ size₂ hid hid'
    exact h.owner_unique (hslot.1 hid) (hslot.1 hid')
  case size_eq =>
    intro id index' size' hid
    rw [hsizes]
    exact h.size_eq (hslot.1 hid)
  case addressed =>
    intro id index' hid
    rw [source?_allocate hok] at hid
    split at hid
    · cases hid
      exact ⟨referenced, size, hslot.2 howner⟩
    · obtain ⟨owner, size', hold⟩ := h.addressed hid
      exact ⟨owner, size', hslot.2 hold⟩

theorem Dense.allocate {a next : Allocator} (h : a.Dense) {request : Variable} {source : ValueSource}
    (hok : a.allocate request = .ok (source, next)) : next.Dense := by
  obtain ⟨-, -, ⟨type, size, -, -, hlt, rfl, hsizes⟩ | ⟨referenced, index, size, -, howner, rfl, hsizes⟩⟩ :=
    allocate_ok hok
  · exact h.addSlot hlt hok hsizes
  · exact h.addReference howner hok hsizes

/-! ### Chains of granted requests -/

theorem Grants.trans {a b c : Allocator} {requests more : List Variable} {sources others : List ValueSource}
    (h : Grants a requests sources b) (h' : Grants b more others c) :
    Grants a (requests ++ more) (sources ++ others) c := by
  induction h with
  | nil => exact h'
  | cons hfirst _ ih => exact .cons hfirst (ih h')

theorem Grants.dense {a b : Allocator} {requests : List Variable} {sources : List ValueSource}
    (h : Grants a requests sources b) (ha : a.Dense) : b.Dense := by
  induction h with
  | nil => exact ha
  | cons hfirst _ ih => exact ih (ha.allocate hfirst)

theorem Grants.source?_of_some {a b : Allocator} {requests : List Variable} {sources : List ValueSource}
    (h : Grants a requests sources b) {id : VariableId} {held : ValueSource} (hid : a.source? id = some held) :
    b.source? id = some held := by
  induction h with
  | nil => exact hid
  | cons hfirst _ ih => exact ih (source?_allocate_of_some hfirst hid)

/-- A slot that was handed out along the chain has an index that was not in use before. -/
theorem Grants.length_le_index {a b : Allocator} {requests : List Variable} {sources : List ValueSource}
    (h : Grants a requests sources b) {id : VariableId} {index : UInt8} {size : Nat} (hnone : a.source? id = none)
    (hid : b.source? id = some (.slot index size)) : a.localSizes.length ≤ index.toNat := by
  induction h with
  | nil =>
    rw [hnone] at hid
    cases hid
  | @cons a middle b request source requests sources hfirst hrest ih =>
    by_cases heq : id = request.id
    · -- the variable got its place in this very step and has kept it
      have hsource : middle.source? id = some source := by rw [source?_allocate hfirst, if_pos heq]
      rw [hrest.source?_of_some hsource] at hid
      obtain ⟨-, -, ⟨_, _, -, -, hlt, rfl, -⟩ | ⟨_, _, _, -, -, rfl, -⟩⟩ := allocate_ok hfirst
      · cases hid
        exact Nat.le_of_eq (toNat_nextIndex hlt).symm
      · cases hid
    · have hmiddle : middle.source? id = none := by rw [source?_allocate hfirst, if_neg heq, hnone]
      exact Nat.le_trans (length_localSizes_allocate hfirst) (ih hmiddle hid)

/-- Exactly the variables of the requests have got places, and these are the places given back. -/
structure Commits (a : Allocator) (requests : List Variable) (sources : List ValueSource) (b : Allocator) : Prop where
  length_eq : sources.length = requests.length
  given : ∀ (k : Nat) (request : Variable), requests[k]? = some request →
    a.source? request.id = none ∧ b.source? request.id = sources[k]?
  others : ∀ id, (∀ request ∈ requests, request.id ≠ id) → b.source? id = a.source? id

theorem Grants.commits {a b : Allocator} {requests : List Variable} {sources : List ValueSource}
    (h : Grants a requests sources b) : Commits a requests sources b := by
  induction h with
  | nil => exact ⟨rfl, nofun, fun _ _ => rfl⟩
  | @cons a middle b request source requests sources hfirst hrest ih =>
    refine ⟨by simp [ih.length_eq], ?_, ?_⟩
    · intro k other hk
      cases k with
      | zero =>
        cases hk
        have hsource : middle.source? request.id = some source := by rw [source?_allocate hfirst, if_pos rfl]
        exact ⟨(allocate_ok hfirst).1, hrest.source?_of_some hsource⟩
      | succ k =>
        obtain ⟨hnone, hgiven⟩ := ih.given k other hk
        rw [source?_allocate hfirst] at hnone
        split at hnone
        · cases hnone
        · exact ⟨hnone, hgiven⟩
    · intro id hid
      have hne : id ≠ request.id := fun heq => hid request List.mem_cons_self heq.symm
      rw [ih.others id fun other hother => hid other (List.mem_cons_of_mem _ hother), source?_allocate hfirst,
        if_neg hne]

/-! ### Many variables at once -/

/-- All requests are granted, or there is a first one that is refused. -/
theorem grants_cases (a : Allocator) (requests : List Variable) :
    (∃ sources next, Grants a requests sources next) ∨
    ∃ front request back sources next e, requests = front ++ request :: back ∧ Grants a front sources next ∧
      next.allocate request = .error e := by
  induction requests generalizing a with
  | nil => exact .inl ⟨[], a, .nil a⟩
  | cons first requests ih =>
    cases hfirst : a.allocate first with
    | error e => exact .inr ⟨[], first, requests, [], a, e, rfl, .nil a, hfirst⟩
    | ok granted =>
      obtain ⟨source, middle⟩ := granted
      rcases ih middle with ⟨sources, next, hrest⟩ | ⟨front, request, back, sources, next, e, rfl, hrest, hrefused⟩
      · exact .inl ⟨source :: sources, next, .cons hfirst hrest⟩
      · exact .inr ⟨first :: front, request, back, source :: sources, next, e, rfl, .cons hfirst hrest, hrefused⟩

/-- Behind requests that are granted, asking for many variables goes on from where they have led. -/
theorem Grants.allocateAll_append {a b : Allocator} {front : List Variable} {sources : List ValueSource}
    (h : Grants a front sources b) (rest : List Variable) :
    a.allocateAll (front ++ rest) = ((b.allocateAll rest).1.map (sources ++ ·), (b.allocateAll rest).2) := by
  induction h with
  | nil a =>
    show a.allocateAll rest = ((a.allocateAll rest).1.map id, (a.allocateAll rest).2)
    cases a.allocateAll rest with
    | mk result next => cases result <;> rfl
  | cons hfirst _ ih =>
    rw [List.cons_append, Allocator.allocateAll, hfirst]
    dsimp only
    rw [ih]
    cases (Allocator.allocateAll _ rest).1 <;> rfl

theorem Grants.allocateAll_eq {a b : Allocator} {requests : List Variable} {sources : List ValueSource}
    (h : Grants a requests sources b) : a.allocateAll requests = (.ok sources, b) := by
  have hall := h.allocateAll_append []
  rw [List.append_nil] at hall
  rw [hall]
  show (Except.ok (sources ++ []), b) = (.ok sources, b)
  rw [List.append_nil]

theorem Grants.allocateAll_refused {a b : Allocator} {front back : List Variable} {request : Variable}
    {sources : List ValueSource} (h : Grants a front sources b) {e : AssemblyError}
    (hrefused : b.allocate request = .error e) : a.allocateAll (front ++ request :: back) = (.error e, b) := by
  rw [h.allocateAll_append, Allocator.allocateAll, hrefused]
  rfl

theorem allocateAll_ok_iff {a next : Allocator} {requests : List Variable} {sources : List ValueSource} :
    a.allocateAll requests = (.ok sources, next) ↔ Grants a requests sources next := by
  refine ⟨fun h => ?_, Grants.allocateAll_eq⟩
  rcases grants_cases a requests with
    ⟨others, last, hgrants⟩ | ⟨front, request, back, others, last, e, rfl, hgrants, hrefused⟩
  · rw [hgrants.allocateAll_eq] at h
    cases h
    exact hgrants
  · rw [hgrants.allocateAll_refused hrefused] at h
    cases h

/-- Asking for many variables fails with the first request that is refused, after the requests before it. -/
theorem allocateAll_error_iff {a next : Allocator} {requests : List Variable} {e : AssemblyError} :
    a.allocateAll requests = (.error e, next) ↔
      ∃ front request back sources, requests = front ++ request :: back ∧ Grants a front sources next ∧
        next.allocate request = .error e := by
  constructor
  · intro h
    rcases grants_cases a requests with
      ⟨sources, last, hgrants⟩ | ⟨front, request, back, sources, last, e', rfl, hgrants, hrefused⟩
    · rw [hgrants.allocateAll_eq] at h
      cases h
    · rw [hgrants.allocateAll_refused hrefused] at h
      cases h
      exact ⟨front, request, back, sources, rfl, hgrants, hrefused⟩
  · rintro ⟨front, request, back, sources, rfl, hgrants, hrefused⟩
    exact hgrants.allocateAll_refused hrefused

/-! ### Histories of calls -/

def Call.requests : Call → List Variable
  | .one request => [request]
  | .all requests => requests

/-- The requests that are granted, up to the first one that is refused. -/
def granted (a : Allocator) : List Variable → List Variable
  | [] => []
  | request :: requests =>
    match a.allocate request with
    | .ok (_, next) => request :: next.granted requests
    | .error _ => []

/-- The requests that are granted in a history of calls, in order. -/
def grantedAlong (a : Allocator) : List Call → List Variable
  | [] => []
  | c :: calls => a.granted c.requests ++ (a.call c).2.grantedAlong calls

theorem exists_grants_granted (a : Allocator) (requests : List Variable) :
    ∃ sources, Grants a (a.granted requests) sources (a.allocateAll requests).2 := by
  induction requests generalizing a with
  | nil => exact ⟨[], .nil a⟩
  | cons request requests ih =>
    unfold granted Allocator.allocateAll
    cases hfirst : a.allocate request with
    | error e => exact ⟨[], .nil a⟩
    | ok given =>
      obtain ⟨sources, hrest⟩ := ih given.2
      exact ⟨given.1 :: sources, .cons hfirst hrest⟩

/-- A call does what asking for all its requests does. -/
theorem snd_call (a : Allocator) (c : Call) : (a.call c).2 = (a.allocateAll c.requests).2 := by
  cases c with
  | one request =>
    unfold Allocator.call Call.requests
    dsimp only
    unfold Allocator.allocateAll
    cases a.allocate request <;> rfl
  | all requests => rfl

/-- What a history of calls has done is a chain of granted requests. -/
theorem exists_grants_along (a : Allocator) (calls : List Call) :
    ∃ sources, Grants a (a.grantedAlong calls) sources (calls.foldl (fun allocator c => (allocator.call c).2) a) := by
  induction calls generalizing a with
  | nil => exact ⟨[], .nil a⟩
  | cons c calls ih =>
    obtain ⟨sources, hfirst⟩ := exists_grants_granted a c.requests
    obtain ⟨others, hrest⟩ := ih (a.call c).2
    rw [← snd_call] at hfirst
    exact ⟨sources ++ others, hfirst.trans hrest⟩

theorem exists_grants_foldl (a : Allocator) (calls : List Call) :
    ∃ requests sources, Grants a requests sources (calls.foldl (fun allocator c => (allocator.call c).2) a) :=
  ⟨_, exists_grants_along a calls⟩

theorem exists_grants_after (calls more : List Call) :
    ∃ requests sources, Grants (after calls) requests sources (after (calls ++ more)) := by
  have happend : after (calls ++ more) = more.foldl (fun allocator c => (allocator.call c).2) (after calls) :=
    List.foldl_append
  rw [happend]
  exact exists_grants_foldl (after calls) more

/-- What holds of an allocator after a history, and of what is asked of it then. -/
structure Steady (calls : List Call) : Prop where
  dense : (after calls).Dense
  /-- A variable keeps its place whatever is asked later. -/
  kept : ∀ more id source, (after calls).source? id = some source → (after (calls ++ more)).source? id = some source
  /-- A slot handed out later has a greater index. -/
  increasing : ∀ more id index size, (after calls).source? id = none →
    (after (calls ++ more)).source? id = some (.slot index size) →
    ∀ id' index' size', (after calls).source? id' = some (.slot index' size') → index' < index
  nextSlot : ∀ id type source next, (after calls).allocateSlot id type = .ok (source, next) →
    ∃ index size, source = .slot index size ∧ type.size = .ok size ∧ index.toNat = (after calls).localSizes.length ∧
      next.localSizes = (after calls).localSizes ++ [size]
  noSlot : ∀ id referenced source next, (after calls).allocateReference id referenced = .ok (source, next) →
    next.localSizes = (after calls).localSizes
  refused : ∀ request e, ((after calls).call (.one request)).1 = .error e →
    ((after calls).call (.one request)).2 = after calls
  /-- Many variables at once get their places one after the other. -/
  all_ok_iff : ∀ requests sources next, (after calls).allocateAll requests = (.ok sources, next) ↔
    Grants (after calls) requests sources next
  all_error_iff : ∀ requests e next, (after calls).allocateAll requests = (.error e, next) ↔
    ∃ front request back sources, requests = front ++ request :: back ∧ Grants (after calls) front sources next ∧
      next.allocate request = .error e
  commits : ∀ requests sources next, Grants (after calls) requests sources next →
    Commits (after calls) requests sources next

/-- After every history of granted and refused calls, slots and variables are in step, and no call disturbs what was
handed out. -/
theorem steady_after (calls : List Call) : Steady calls := by
  have hdense : (after calls).Dense := by
    obtain ⟨requests, sources, hgrants⟩ := exists_grants_foldl {} calls
    exact hgrants.dense dense_empty
  constructor
  case dense => exact hdense
  case kept =>
    intro more id source hid
    obtain ⟨requests, sources, hgrants⟩ := exists_grants_after calls more
    exact hgrants.source?_of_some hid
  case increasing =>
    intro more id index size hnone hid id' index' size' hid'
    obtain ⟨requests, sources, hgrants⟩ := exists_grants_after calls more
    have hlater : (after calls).localSizes.length ≤ index.toNat := hgrants.length_le_index hnone hid
    have hearlier : index'.toNat < (after calls).localSizes.length := (hdense.inUse index').1 ⟨id', size', hid'⟩
    exact UInt8.lt_iff_toNat_lt.2 (Nat.lt_of_lt_of_le hearlier hlater)
  case nextSlot =>
    intro id type source next hok
    have hrequest : (after calls).allocate ⟨id, .ofType type⟩ = .ok (source, next) := hok
    obtain ⟨-, -, ⟨_, size, hkind, hsize, hlt, rfl, hsizes⟩ | ⟨_, _, _, hkind, -, -, -⟩⟩ := allocate_ok hrequest
    · cases hkind
      exact ⟨_, size, rfl, hsize, toNat_nextIndex hlt, hsizes⟩
    · cases hkind
  case noSlot =>
    intro id referenced source next hok
    have hrequest : (after calls).allocate ⟨id, .referenceTo referenced⟩ = .ok (source, next) := hok
    obtain ⟨-, -, ⟨_, _, hkind, -, -, -, -⟩ | ⟨_, _, _, -, -, -, hsizes⟩⟩ := allocate_ok hrequest
    · cases hkind
    · exact hsizes
  case refused =>
    intro request e hrefused
    unfold Allocator.call at hrefused ⊢
    dsimp only at hrefused ⊢
    split at hrefused
    · cases hrefused
    · rfl
  case all_ok_iff => exact fun _ _ _ => allocateAll_ok_iff
  case all_error_iff => exact fun _ _ _ => allocateAll_error_iff
  case commits => exact fun _ _ _ hgrants => hgrants.commits

end Allocator

end StackMachine
