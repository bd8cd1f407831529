import StackMachine.Proofs.Assembly.Script
import StackMachine.Proofs.Assembly.Slots
import StackMachine.Proofs.Assembly.Success
import StackMachine.Proofs.Machine.Heap

/-!
# Frames of allocated variables

An allocator and a builder share nothing but a table of sizes.  The allocator numbers the variables that get slots in the
order in which they are granted (`Grants.slot_of_local`), and the table has the sizes of their types in that order
(`Grants.localSizes_eq`).  The builder lays the sizes of the table one after the other and verifies that every local that
is named has an offset.

So if a builder takes its table from an allocator, and loads locals only through the places that this allocator holds
(`Builder.LoadsFrom`), then no local is missing (`NamesFirstUndeclared` never holds) and every variable finds a slot of its
type's size, apart from those of the others.  `Builder.LoadsFrom.assemble_serves` says this of every history of calls and
every script.
-/

namespace StackMachine

/-! ### Sizes of types -/

/-- Every size is a whole number of words, and at least one. -/
theorem DataType.size_ok {type : DataType} {size : Nat} (h : type.size = .ok size) : 0 < size ∧ 4 ∣ size := by
  fun_induction DataType.size type generalizing size with
  | case3 inner ih =>
    cases hinner : inner.size with
    | error e =>
      rw [hinner] at h
      cases h
    | ok innerSize =>
      rw [hinner] at h
      cases h
      obtain ⟨hpos, hdvd⟩ := ih hinner
      exact ⟨by omega, (Nat.dvd_add_right (Nat.dvd_refl 4)).2 hdvd⟩
  | case8 => cases h
  | case1 | case2 | case4 | case5 | case6 | case7 =>
    cases h
    decide

theorem dvd_total {n : Nat} {sizes : List Nat} (h : ∀ size ∈ sizes, n ∣ size) : n ∣ Size.total sizes := by
  induction sizes with
  | nil => exact Nat.dvd_zero n
  | cons size sizes ih =>
    rw [Size.total_cons]
    exact Nat.dvd_add (h size (by simp)) (ih fun other hother => h other (by simp [hother]))

theorem total_take_succ {sizes : List Nat} {k size : Nat} (h : sizes[k]? = some size) :
    Size.total (sizes.take (k + 1)) = Size.total (sizes.take k) + size := by
  rw [List.take_add_one, h, Size.total_append]
  simp

/-! ### Variables in the order of their slots -/

/-- A variable that has got a slot of its own, for a value of the type. -/
structure Local where
  id : VariableId
  type : DataType

def Variable.local? (request : Variable) : Option Local :=
  match request.kind with
  | .ofType type => some ⟨request.id, type⟩
  | .referenceTo _ => none

namespace Allocator

/-- The variables that get slots of their own in a history of calls, in order. -/
def locals (calls : List Call) : List Local :=
  (grantedAlong {} calls).filterMap Variable.local?

theorem Grants.localSizes_eq {a b : Allocator} {requests : List Variable} {sources : List ValueSource}
    (h : Grants a requests sources b) :
    ∃ sizes, b.localSizes = a.localSizes ++ sizes ∧
      (requests.filterMap Variable.local?).map (fun l => l.type.size) = sizes.map Except.ok := by
  induction h with
  | nil a => exact ⟨[], by simp, rfl⟩
  | cons hfirst _ ih =>
    obtain ⟨sizes, hsizes, hmap⟩ := ih
    obtain ⟨-, -, ⟨type, size, hkind, hsize, -, -, hnext⟩ | ⟨referenced, index, size, hkind, -, -, hnext⟩⟩ :=
      allocate_ok hfirst
    · exact ⟨size :: sizes, by simp [hsizes, hnext], by simp [Variable.local?, hkind, hsize, hmap]⟩
    · exact ⟨sizes, by rw [hsizes, hnext], by simp [Variable.local?, hkind, hmap]⟩

/-- A variable that gets a slot has the index that counts the slots before it. -/
theorem Grants.slot_of_local {a b : Allocator} {requests : List Variable} {sources : List ValueSource}
    (h : Grants a requests sources b) {k : Nat} {l : Local} (hk : (requests.filterMap Variable.local?)[k]? = some l) :
    ∃ size, l.type.size = .ok size ∧
      b.source? l.id = some (.slot (UInt8.ofNat (a.localSizes.length + k)) size) := by
  induction h generalizing k with
  | nil a => cases hk
  | @cons a middle b request source requests sources hfirst hrest ih =>
    obtain ⟨-, -, ⟨type, size, hkind, hsize, -, rfl, hnext⟩ | ⟨referenced, index, size, hkind, -, -, hnext⟩⟩ :=
      allocate_ok hfirst
    · have hlocal : request.local? = some ⟨request.id, type⟩ := by simp [Variable.local?, hkind]
      rw [List.filterMap_cons_some hlocal] at hk
      cases k with
      | zero =>
        cases hk
        refine ⟨size, hsize, hrest.source?_of_some ?_⟩
        rw [source?_allocate hfirst, if_pos rfl]
        rfl
      | succ k =>
        obtain ⟨size', hsize', hsource⟩ := ih hk
        have hlength : middle.localSizes.length + k = a.localSizes.length + (k + 1) := by
          rw [hnext, List.length_append, List.length_singleton]
          omega
        exact ⟨size', hsize', hlength ▸ hsource⟩
    · -- an address takes no slot, so the variables behind it are counted from the same number
      have hlocal : request.local? = none := by simp [Variable.local?, hkind]
      rw [List.filterMap_cons_none hlocal] at hk
      rw [← hnext]
      exact ih hk

/-- A variable that stands for an address stands for that of the variable that it was asked to refer to. -/
theorem Grants.reference_of_alias {a b : Allocator} {requests : List Variable} {sources : List ValueSource}
    (h : Grants a requests sources b) {id referenced : VariableId} (hmem : ⟨id, .referenceTo referenced⟩ ∈ requests) :
    ∃ index size, b.source? id = some (.reference index) ∧ b.source? referenced = some (.slot index size) := by
  induction h with
  | nil a => cases hmem
  | @cons a middle b request source requests sources hfirst hrest ih =>
    rcases List.mem_cons.1 hmem with rfl | hmem
    · obtain ⟨-, -, ⟨type, size, hkind, -, -, -, -⟩ | ⟨referenced', index, size, hkind, howner, rfl, -⟩⟩ :=
        allocate_ok hfirst
      · cases hkind
      · cases hkind
        have howner' := source?_allocate_of_some hfirst howner
        refine ⟨index, size, hrest.source?_of_some ?_, hrest.source?_of_some howner'⟩
        rw [source?_allocate hfirst, if_pos rfl]
    · exact ih hmem

theorem Dense.slotIndex_lt {a : Allocator} (h : a.Dense) {id : VariableId} {source : ValueSource}
    (hid : a.source? id = some source) : source.slotIndex.toNat < a.localSizes.length := by
  cases source with
  | slot index size => exact (h.inUse index).1 ⟨id, size, hid⟩
  | reference index =>
    obtain ⟨owner, size, howner⟩ := h.addressed hid
    exact (h.inUse index).1 ⟨owner, size, howner⟩

theorem dense_after (calls : List Call) : (after calls).Dense := by
  obtain ⟨requests, sources, hgrants⟩ := exists_grants_foldl {} calls
  exact hgrants.dense dense_empty

end Allocator

/-! ### Slots of a frame -/

/-- The bytes of the frame from the offset of a local to the next offset, or to the end of the frame. -/
def Function.slot? (f : Function) (index : Nat) : Option Stretch :=
  f.localOffsets[index]?.map fun offset =>
    ⟨offset.toNat, (f.localOffsets[index + 1]?.getD f.localSize).toNat - offset.toNat⟩

theorem Builder.Assembles.slot?_eq {builder : Builder} {f : Function} (h : builder.Assembles f) {k size : Nat}
    (hk : builder.localSizes[k]? = some size) :
    f.slot? k = some ⟨Size.total (builder.localSizes.take k), size⟩ := by
  obtain ⟨hlength, -, htotal, hoffset⟩ := layOutLocals?_exact h.frame
  have hlt := (List.getElem?_eq_some_iff.1 hk).1
  have hget := List.getElem?_eq_getElem (l := f.localOffsets) (i := k) (by omega)
  -- the next offset, or the end of the frame, is where the sizes up to this one end
  have hnext : (f.localOffsets[k + 1]?.getD f.localSize).toNat = Size.total (builder.localSizes.take (k + 1)) := by
    cases hlast : f.localOffsets[k + 1]? with
    | some offset => exact hoffset (k + 1) offset hlast
    | none =>
      have hend := List.getElem?_eq_none_iff.1 hlast
      rw [Option.getD_none, htotal, List.take_of_length_le (by omega)]
  rw [total_take_succ hk] at hnext
  rw [Function.slot?, hget, Option.map_some, hnext, hoffset k _ hget, Nat.add_sub_cancel_left]

theorem Stretch.before_of_take {sizes : List Nat} {j k size : Nat} (hj : sizes[j]? = some size) (hlt : j < k)
    (other : Nat) : Stretch.Before ⟨Size.total (sizes.take j), size⟩ ⟨Size.total (sizes.take k), other⟩ := by
  have hends := total_take_succ hj
  have hle : Size.total (sizes.take (j + 1)) ≤ Size.total (sizes.take k) := total_take_mono hlt
  unfold Stretch.Before
  dsimp only
  omega

/-- Slots of different locals do not overlap. -/
theorem Stretch.apart_of_take {sizes : List Nat} {j k size other : Nat} (hj : sizes[j]? = some size)
    (hk : sizes[k]? = some other) (hne : j ≠ k) :
    Stretch.Apart ⟨Size.total (sizes.take j), size⟩ ⟨Size.total (sizes.take k), other⟩ := by
  rcases Nat.lt_or_gt_of_ne hne with hlt | hgt
  · exact (Stretch.before_of_take hj hlt other).apart
  · exact (Stretch.before_of_take hk hgt size).apart.symm

/-! ### Builders that take their frame from an allocator -/

/-- The script declares the sizes of an allocator, and loads locals only through places that the allocator holds. -/
structure Builder.LoadsFrom (allocator : Allocator) (name : String) (script : List Call) : Prop where
  sizes : (after name script).localSizes = allocator.localSizes
  loads : ∀ c ∈ script, ∀ index, c.emission? = some (.localAddress index) →
    ∃ id source, c = .emitSource source ∧ allocator.source? id = some source

/-- The frame of a function serves the variables of a history of calls. -/
structure Function.Serves (f : Function) (calls : List Allocator.Call) : Prop where
  held : ∀ id source, (Allocator.after calls).source? id = some source →
    ∃ request ∈ Allocator.grantedAlong {} calls, request.id = id
  /-- A variable has a slot of its type's size behind the slots of the variables before it. -/
  slot : ∀ (k : Nat) (l : Local), (Allocator.locals calls)[k]? = some l →
    ∃ source size earlier, (Allocator.after calls).source? l.id = some source ∧ l.type.size = .ok size ∧
      ((Allocator.locals calls).take k).map (fun other => other.type.size) = earlier.map Except.ok ∧
      f.slot? source.slotIndex.toNat = some ⟨Size.total earlier, size⟩ ∧
      4 ∣ Size.total earlier ∧ 0 < size ∧ 4 ∣ size
  aliased : ∀ id referenced, ⟨id, .referenceTo referenced⟩ ∈ Allocator.grantedAlong {} calls →
    ∃ source owner slot, (Allocator.after calls).source? id = some source ∧
      (Allocator.after calls).source? referenced = some owner ∧
      f.slot? source.slotIndex.toNat = some slot ∧ f.slot? owner.slotIndex.toNat = some slot
  apart : ∀ l ∈ Allocator.locals calls, ∀ other ∈ Allocator.locals calls, l.id ≠ other.id →
    ∃ source source' slot slot', (Allocator.after calls).source? l.id = some source ∧
      (Allocator.after calls).source? other.id = some source' ∧ f.slot? source.slotIndex.toNat = some slot ∧
      f.slot? source'.slotIndex.toNat = some slot' ∧ slot.Apart slot'

/-- Every local that such a script names has a slot. -/
theorem Builder.LoadsFrom.lt_of_emission {allocator : Allocator} (ha : allocator.Dense) {name : String}
    {script : List Call} (h : LoadsFrom allocator name script) {k : Nat} {index : UInt8}
    (hk : (after name script).emissions[k]? = some (.localAddress index)) :
    index.toNat < allocator.localSizes.length := by
  have hmem : Emission.localAddress index ∈ emitted script := by
    rw [← emissions_after name]
    exact Array.mem_toList_iff.2 (Array.mem_of_getElem? hk)
  obtain ⟨c, hc, hemission⟩ := List.mem_filterMap.1 hmem
  obtain ⟨id, source, rfl, hsource⟩ := h.loads c hc index hemission
  cases hemission
  exact ha.slotIndex_lt hsource

/-- The sizes in the table are those of the variables' types. -/
theorem Allocator.map_size_locals (calls : List Call) :
    (locals calls).map (fun l => l.type.size) = (after calls).localSizes.map Except.ok := by
  obtain ⟨sources, hgrants⟩ := exists_grants_along {} calls
  obtain ⟨sizes, hsizes, hmap⟩ := hgrants.localSizes_eq
  have htable : (after calls).localSizes = sizes := by simpa [after] using hsizes
  rw [locals, hmap, htable]

theorem Allocator.dvd_of_mem_localSizes {calls : List Call} {size : Nat} (h : size ∈ (after calls).localSizes) :
    4 ∣ size := by
  have hmem : (Except.ok size : Except AssemblyError Nat) ∈ (locals calls).map (fun l => l.type.size) := by
    rw [map_size_locals]
    exact List.mem_map_of_mem h
  obtain ⟨l, -, hl⟩ := List.mem_map.1 hmem
  exact (DataType.size_ok hl).2

theorem Allocator.source?_of_local {calls : List Call} {k : Nat} {l : Local} (hk : (locals calls)[k]? = some l) :
    ∃ index size, (after calls).source? l.id = some (.slot index size) ∧ index.toNat = k ∧ l.type.size = .ok size ∧
      (after calls).localSizes[k]? = some size := by
  obtain ⟨sources, hgrants⟩ := exists_grants_along {} calls
  obtain ⟨size, hsize, hsource⟩ := hgrants.slot_of_local hk
  have hget := congrArg (fun sizes => sizes[k]?) (map_size_locals calls)
  simp only [List.getElem?_map, hk, Option.map_some, hsize] at hget
  obtain ⟨size', hsize', heq⟩ := Option.map_eq_some_iff.1 hget.symm
  cases heq
  have hlt := (List.getElem?_eq_some_iff.1 hsize').1
  have hcount := (dense_after calls).count_le
  refine ⟨_, size, hsource, ?_, hsize, hsize'⟩
  rw [show (({} : Allocator).localSizes.length + k) = k from Nat.zero_add k]
  exact UInt8.toNat_ofNat_of_lt (by show k < 256; omega)

theorem Builder.LoadsFrom.serves {calls : List Allocator.Call} {name : String} {script : List Call}
    (h : LoadsFrom (Allocator.after calls) name script) {f : Function}
    (hassembles : (after name script).Assembles f) : f.Serves calls := by
  have hslot : ∀ {k size : Nat}, (Allocator.after calls).localSizes[k]? = some size →
      f.slot? k = some ⟨Size.total ((Allocator.after calls).localSizes.take k), size⟩ := by
    intro k size hk
    rw [← h.sizes] at hk ⊢
    exact hassembles.slot?_eq hk
  obtain ⟨sources, hgrants⟩ := Allocator.exists_grants_along {} calls
  constructor
  case held =>
    intro id source hid
    by_contra hnone
    push Not at hnone
    have hother := hgrants.commits.others id hnone
    rw [← Allocator.after, hid] at hother
    cases hother
  case slot =>
    intro k l hk
    obtain ⟨index, size, hsource, hindex, hsize, hget⟩ := Allocator.source?_of_local hk
    have hearlier : ((Allocator.locals calls).take k).map (fun other => other.type.size) =
        ((Allocator.after calls).localSizes.take k).map Except.ok := by
      rw [List.map_take, Allocator.map_size_locals, List.map_take]
    have hdvd : 4 ∣ Size.total ((Allocator.after calls).localSizes.take k) :=
      dvd_total fun other hother => Allocator.dvd_of_mem_localSizes (List.mem_of_mem_take hother)
    obtain ⟨hpos, hwords⟩ := DataType.size_ok hsize
    refine ⟨_, size, _, hsource, hsize, hearlier, ?_, hdvd, hpos, hwords⟩
    rw [ValueSource.slotIndex, hindex]
    exact hslot hget
  case aliased =>
    intro id referenced hmem
    obtain ⟨index, size, hid, howner⟩ := hgrants.reference_of_alias hmem
    have hget := hslot ((Allocator.dense_after calls).size_eq howner)
    exact ⟨_, _, _, hid, howner, hget, hget⟩
  case apart =>
    intro l hl other hother hne
    obtain ⟨j, hj⟩ := List.mem_iff_getElem?.1 hl
    obtain ⟨k, hk⟩ := List.mem_iff_getElem?.1 hother
    have hjk : j ≠ k := by
      rintro rfl
      rw [hj] at hk
      cases hk
      exact hne rfl
    obtain ⟨index, size, hsource, rfl, -, hget⟩ := Allocator.source?_of_local hj
    obtain ⟨index', size', hsource', rfl, -, hget'⟩ := Allocator.source?_of_local hk
    exact ⟨_, _, _, _, hsource, hsource', hslot hget, hslot hget', Stretch.apart_of_take hget hget' hjk⟩

/-- A load through a place is read back as a load of its slot. -/
theorem Builder.Assembles.decodeAt_emitSource {name : String} {before rest : List Call} {source : ValueSource}
    {f : Function} (h : (after name (before ++ .emitSource source :: rest)).Assembles f) :
    Instruction.decodeAt f.code
        ((after name (before ++ .emitSource source :: rest)).offsetOf (emitted before).length) =
      .ok ⟨.loadLocalAddress, .localIndex source.slotIndex⟩ := by
  have hemission : (after name (before ++ .emitSource source :: rest)).emissions[(emitted before).length]? =
      some (.localAddress source.slotIndex) := by
    rw [← Array.getElem?_toList, emissions_after, emitted_append, List.getElem?_append_right (Nat.le_refl _),
      Nat.sub_self]
    rfl
  have hinstruction := Builder.getElem?_instructions (after name (before ++ .emitSource source :: rest))
    (emitted before).length
  rw [hemission, Option.map_some] at hinstruction
  rw [h.verified.code_eq, ← Builder.offsetAt_instructions]
  exact decodeAt_encodeAll h.verified.wellFormed hinstruction

/-- A builder that takes its frame from an allocator is never refused for its locals.  When it is assembled, every variable
has a slot of its type's size, apart from the slots of the others, and every load names the slot of its place. -/
theorem Builder.LoadsFrom.assemble_serves {calls : List Allocator.Call} {name : String} {script : List Call}
    (h : LoadsFrom (Allocator.after calls) name script) :
    (∀ e, (after name script).assemble ≠ .error (.verification e)) ∧
    (∀ cause, (after name script).assemble = .error (.limitExceeded cause) →
      cause = .frameTooLarge ∨ ∃ length, cause = .codeTooLong length) ∧
    ∀ f, (after name script).assemble = .ok f →
      f.Serves calls ∧
      ∀ before source rest, script = before ++ .emitSource source :: rest →
        Instruction.decodeAt f.code ((after name script).offsetOf (emitted before).length) =
          .ok ⟨.loadLocalAddress, .localIndex source.slotIndex⟩ := by
  have hdense := Allocator.dense_after calls
  refine ⟨?_, ?_, ?_⟩
  · intro e hverification
    obtain ⟨k, index, hk, hmissing, -, -⟩ := Builder.namesFirstUndeclared_of_assemble hverification
    have hlt := h.lt_of_emission hdense hk
    rw [h.sizes] at hmissing
    omega
  · intro cause hcause
    refine Builder.cause_of_assemble ?_ hcause
    rw [h.sizes]
    exact hdense.count_le
  · intro f hassemble
    have hassembles := Builder.assembles_of_assemble hassemble
    refine ⟨h.serves hassembles, ?_⟩
    rintro before source rest rfl
    exact hassembles.decodeAt_emitSource

/-- A history of calls with two requests that are refused: a second place for a variable, and a slot for a value without
size. -/
def Allocator.crossing : List Call :=
  [.one ⟨⟨0⟩, .ofType (.option (.reference false .stringSlice))⟩, .one ⟨⟨0⟩, .ofType .int32⟩,
    .all [⟨⟨1⟩, .referenceTo ⟨0⟩⟩, ⟨⟨2⟩, .ofType .int32⟩, ⟨⟨3⟩, .ofType .void⟩, ⟨⟨4⟩, .ofType .int32⟩]]

/-- A script that loads the variables of `Allocator.crossing`. -/
def Builder.crossing : List Call :=
  [.setLocalSizes [12, 4], .emitSource (.reference 0), .emit (.immediate 1), .emitSource (.slot 1 4)]

theorem Builder.LoadsFrom.assemble_serves_crossing :
    LoadsFrom (Allocator.after Allocator.crossing) "crossing" Builder.crossing ∧
    ∃ f, (after "crossing" Builder.crossing).assemble = .ok f ∧ f.Serves Allocator.crossing ∧
      Instruction.decodeAt f.code 0 = .ok ⟨.loadLocalAddress, .localIndex 0⟩ ∧
      Instruction.decodeAt f.code 7 = .ok ⟨.loadLocalAddress, .localIndex 1⟩ := by
  have h : LoadsFrom (Allocator.after Allocator.crossing) "crossing" Builder.crossing := by
    refine ⟨by decide +kernel, ?_⟩
    intro c hc index hemission
    simp only [Builder.crossing, List.mem_cons, List.not_mem_nil, or_false] at hc
    rcases hc with rfl | rfl | rfl | rfl
    · cases hemission
    · exact ⟨⟨1⟩, _, rfl, by decide +kernel⟩
    · cases hemission
    · exact ⟨⟨2⟩, _, rfl, by decide +kernel⟩
  have hassemble : (after "crossing" Builder.crossing).assemble =
      .ok { name := "crossing", localOffsets := [0, 12], localSize := 16
            code := encodeAll
              [⟨.loadLocalAddress, .localIndex 0⟩, ⟨.loadImmediate, .immediate 1⟩, ⟨.loadLocalAddress, .localIndex 1⟩]
            staticData := [] } :=
    assemble_of_toOption (by decide +kernel)
  obtain ⟨hserves, hloads⟩ := (Builder.LoadsFrom.assemble_serves h).2.2 _ hassemble
  refine ⟨h, _, hassemble, hserves, ?_, ?_⟩
  · exact hloads [.setLocalSizes [12, 4]] (.reference 0) _ rfl
  · exact hloads [.setLocalSizes [12, 4], .emitSource (.reference 0), .emit (.immediate 1)] (.slot 1 4) _ rfl

end StackMachine
