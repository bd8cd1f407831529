import StackMachine.Json.Record

/-!
# Records are read back

An object with one member for each key gives every field the value under its key, or else the value that stands in for the
field: `Json.fields?_ofMembers`.  The order of the members plays no part.  What is written for a number of a given width,
for an optional value and for a list is read back as it was.
-/

namespace StackMachine

/-! ### Fields -/

/-- Among members with different keys a field finds the one under its name. -/
theorem Field.find?_of_nodup (field : Field) {members : List (String × Json)} (h : (members.map Prod.fst).Nodup) :
    field.find? (members.map fun member => (some member.1, member.2)) =
      (members.lookup field.name).or field.absent := by
  induction members with
  | nil => rfl
  | cons member members ih =>
    obtain ⟨key, value⟩ := member
    rw [List.map_cons, List.nodup_cons] at h
    rw [List.map_cons, List.lookup_cons]
    by_cases hkey : field.name = key
    · subst hkey
      -- no later member has this key
      have hnone : (members.map fun member => (some member.1, member.2)).filter
          (fun member => member.1 == some field.name) = [] := by
        rw [List.filter_eq_nil_iff]
        intro later hlater heq
        obtain ⟨member, hmember, rfl⟩ := List.mem_map.1 hlater
        exact h.1 (List.mem_map.2 ⟨member, hmember, by simpa using heq⟩)
      simp [Field.find?, hnone]
    · have hmember : (some key == some field.name) = false := by simpa using Ne.symm hkey
      have hlookup : (field.name == key) = false := by simpa using hkey
      have hfind := ih h.2
      unfold Field.find? at hfind ⊢
      rw [List.filter_cons, hmember, hlookup]
      exact hfind

/-- The fields of an object with different keys, whatever their order. -/
theorem Json.fields?_ofMembers (fields : List Field) {members : List (String × Json)}
    (h : (members.map Prod.fst).Nodup) :
    (Json.ofMembers members).fields? fields =
      fields.mapM fun field => (members.lookup field.name).or field.absent := by
  have hsome : ((members.map fun member => (some member.1, member.2)).all fun member => member.1.isSome) = true := by
    simp
  rw [Json.ofMembers, Json.fields?, if_pos hsome]
  congr 1
  funext field
  exact field.find?_of_nodup h

/-- Fields that all have defaults give what is found under their keys, and the default for what is not found. -/
theorem Field.mapM_withDefault {given defaults members : List (String × Json)}
    (hkeys : members.map Prod.fst = defaults.map Prod.fst) (hnodup : (defaults.map Prod.fst).Nodup)
    (h : ∀ key ∈ defaults.map Prod.fst, members.lookup key = (given.lookup key).or (defaults.lookup key)) :
    (defaults.map fun member => Field.withDefault member.1 member.2).mapM
      (fun field => (given.lookup field.name).or field.absent) = some (members.map Prod.snd) := by
  induction defaults generalizing members with
  | nil =>
    obtain rfl := List.map_eq_nil_iff.1 hkeys
    rfl
  | cons first defaults ih =>
    obtain ⟨key, standard⟩ := first
    cases members with
    | nil => cases hkeys
    | cons member members =>
      obtain ⟨key', value⟩ := member
      rw [List.map_cons, List.map_cons] at hkeys
      obtain ⟨hkey, hrest⟩ := List.cons.inj hkeys
      cases hkey
      rw [List.map_cons, List.nodup_cons] at hnodup
      have hfirst := h key (by simp)
      simp only [List.lookup_cons, beq_self_eq_true] at hfirst
      have hothers := ih hrest hnodup.2 (by
        intro other hother
        have hne : (other == key) = false := by
          rw [beq_eq_false_iff_ne]
          rintro rfl
          exact hnodup.1 hother
        have hlookup := h other (List.mem_cons_of_mem _ hother)
        simpa only [List.lookup_cons, hne] using hlookup)
      rw [List.map_cons, List.mapM_cons, hothers]
      simp only [Field.withDefault, ← hfirst]
      rfl

/-! ### Values of a known type -/

@[simp] theorem Json.toString?_ofString (text : String) : (Json.ofString text).toString? = some text := rfl

theorem Json.toNat?_ofNat {n bound : Nat} (h : n < bound) : (Json.ofNat n).toNat? bound = some n :=
  if_pos h

@[simp] theorem Json.toUInt8?_ofNat (n : UInt8) : (Json.ofNat n.toNat).toUInt8? = some n := by
  rw [Json.toUInt8?, Json.toNat?_ofNat n.toNat_lt, Option.map_some, UInt8.ofNat_toNat]

@[simp] theorem Json.toUInt32?_ofNat (n : UInt32) : (Json.ofNat n.toNat).toUInt32? = some n := by
  rw [Json.toUInt32?, Json.toNat?_ofNat n.toNat_lt, Option.map_some, UInt32.ofNat_toNat]

@[simp] theorem Json.toUInt64?_ofNat (n : UInt64) : (Json.ofNat n.toNat).toUInt64? = some n := by
  rw [Json.toUInt64?, Json.toNat?_ofNat n.toNat_lt, Option.map_some, UInt64.ofNat_toNat]

section
variable {α : Type} {encode : α → Json} {decode : Json → Option α}

theorem Json.toList?_ofList (h : ∀ a, decode (encode a) = some a) (values : List α) :
    (Json.ofList encode values).toList? decode = some values := by
  rw [Json.ofList, Json.toList?]
  induction values with
  | nil => rfl
  | cons a values ih =>
    rw [List.map_cons, List.mapM_cons, h, ih]
    rfl

theorem Json.toOption?_ofOption (h : ∀ a, decode (encode a) = some a) (hnull : ∀ a, encode a ≠ .null)
    (value : Option α) : (Json.ofOption encode value).toOption? decode = some value := by
  cases value with
  | none => rfl
  | some a =>
    rw [Json.ofOption, Json.toOption?, h]
    · rfl
    · exact hnull a

end

end StackMachine
