import StackMachine.Proofs.Json.Scalars

/-!
# Values are read back

Every value is read back from its text, with whatever follows the text left over: `parse?_render`.  What follows may not
continue a number, and inside arrays and objects it never does, because a comma or a closing bracket follows.

The reader counts down a bound on its calls.  A value is read between every second call and takes at least a byte, so a
bound of twice the length of the text is enough.  The induction is on that bound: `ReadsBack depth` says that all values,
elements and members whose text is short enough for the bound are read back, and `ReadsBack.succ` adds one call.
-/

namespace StackMachine.Json

/-! ### The first byte of a value -/

theorem skipBlanks_cons {byte : UInt8} (h : Byte.isBlank byte = false) (rest : List UInt8) :
    skipBlanks (byte :: rest) = byte :: rest := by
  rw [skipBlanks, List.dropWhile_cons, h]
  rfl

private theorem ne_of_isDigit_or_minus {first byte : UInt8} (h : Byte.isDigit first = true ∨ first = Byte.minus)
    (hdigit : Byte.isDigit byte = false) (hminus : byte ≠ Byte.minus) : first ≠ byte := by
  rintro rfl
  rcases h with h | h
  · rw [h] at hdigit
    cases hdigit
  · exact hminus h

private theorem isBlank_of_isDigit_or_minus {first : UInt8} (h : Byte.isDigit first = true ∨ first = Byte.minus) :
    Byte.isBlank first = false := by
  cases hblank : Byte.isBlank first with
  | false => rfl
  | true =>
    simp only [Byte.isBlank, Bool.or_eq_true, beq_iff_eq] at hblank
    rcases hblank with ((rfl | rfl) | rfl) | rfl <;> exact absurd h (by decide)

/-- The text of a value starts with a byte that is no blank and closes nothing. -/
theorem exists_render_eq (v : Json) :
    ∃ first others, v.render = first :: others ∧ Byte.isBlank first = false ∧ first ≠ Byte.closeBracket ∧
      first ≠ Byte.closeBrace := by
  cases v with
  | null => exact ⟨Byte.n, [Byte.u, Byte.l, Byte.l], by decide, by decide, by decide, by decide⟩
  | bool value =>
    cases value with
    | true => exact ⟨Byte.t, [Byte.r, Byte.u, Byte.e], by decide, by decide, by decide, by decide⟩
    | false => exact ⟨Byte.f, [Byte.a, Byte.l, Byte.s, Byte.e], by decide, by decide, by decide, by decide⟩
  | number value =>
    obtain ⟨first, others, heq, hfirst⟩ := exists_renderNumber_eq value
    rw [render]
    exact ⟨first, others, heq, isBlank_of_isDigit_or_minus hfirst, ne_of_isDigit_or_minus hfirst rfl (by decide),
      ne_of_isDigit_or_minus hfirst rfl (by decide)⟩
  | string text =>
    obtain ⟨body, hbody, -⟩ := exists_renderString_eq text
    rw [render, hbody]
    exact ⟨_, _, rfl, by decide, by decide, by decide⟩
  | array elements =>
    cases elements with
    | nil =>
      rw [render]
      exact ⟨_, _, rfl, by decide, by decide, by decide⟩
    | cons v vs =>
      rw [render]
      exact ⟨_, _, rfl, by decide, by decide, by decide⟩
  | object members =>
    cases members with
    | nil =>
      rw [render]
      exact ⟨_, _, rfl, by decide, by decide, by decide⟩
    | cons member ms =>
      rw [render]
      exact ⟨_, _, rfl, by decide, by decide, by decide⟩

/-! ### Values that hold no others -/

theorem readValue?_of_scalar {first : UInt8} (hblank : Byte.isBlank first = false) (hbracket : first ≠ Byte.openBracket)
    (hbrace : first ≠ Byte.openBrace) (depth : Nat) (rest : List UInt8) :
    readValue? (depth + 1) (first :: rest) = readScalar? (first :: rest) := by
  rw [readValue?, skipBlanks_cons hblank]
  split
  · rename_i heq
    exact absurd (List.cons.inj heq).1 hbracket
  · rename_i heq
    exact absurd (List.cons.inj heq).1 hbrace
  · rfl

theorem readValue?_renderNumber (value : Option Nat) (depth : Nat) {rest : List UInt8} (h : EndsNumber rest) :
    readValue? (depth + 1) (renderNumber value ++ rest) = some (.number value, rest) := by
  have hread := readNumber?_renderNumber value h
  obtain ⟨first, others, heq, hfirst⟩ := exists_renderNumber_eq value
  have hne := @ne_of_isDigit_or_minus first
  rw [heq, List.cons_append] at hread ⊢
  rw [readValue?_of_scalar (isBlank_of_isDigit_or_minus hfirst) (hne hfirst rfl (by decide))
    (hne hfirst rfl (by decide))]
  -- a digit or a minus sign starts no other scalar
  unfold readScalar?
  split
  · rename_i heq
    exact absurd (List.cons.inj heq).1 (hne hfirst rfl (by decide))
  · rename_i heq
    exact absurd (List.cons.inj heq).1 (hne hfirst rfl (by decide))
  · rename_i heq
    exact absurd (List.cons.inj heq).1 (hne hfirst rfl (by decide))
  · rename_i heq
    exact absurd (List.cons.inj heq).1 (hne hfirst rfl (by decide))
  · rw [hread]
    rfl

theorem readValue?_renderString (text : Option String) (depth : Nat) (rest : List UInt8) :
    readValue? (depth + 1) (renderString text ++ rest) = some (.string text, rest) := by
  obtain ⟨body, hbody, hread⟩ := exists_renderString_eq text
  rw [hbody, List.cons_append, readValue?_of_scalar (by decide) (by decide) (by decide)]
  change (readString? (body ++ rest)).map _ = _
  rw [hread]
  rfl

theorem readKey?_renderString (key : Option String) (rest : List UInt8) :
    readKey? (renderString key ++ Byte.colon :: rest) = some (key, rest) := by
  obtain ⟨body, hbody, hread⟩ := exists_renderString_eq key
  rw [hbody, readKey?, List.cons_append, skipBlanks_cons (by decide)]
  change ((readString? (body ++ Byte.colon :: rest)).bind fun _ => _) = _
  rw [hread]
  rfl

/-! ### Arrays and objects -/

private theorem endsNumber_cons {byte : UInt8} (hdigit : Byte.isDigit byte = false) (hpoint : byte ≠ Byte.point)
    (he : byte ≠ Byte.e) (hupper : byte ≠ Byte.upperE) (rest : List UInt8) : EndsNumber (byte :: rest) := by
  intro b hb
  cases hb
  exact ⟨hdigit, hpoint, he, hupper⟩

theorem endsNumber_renderElements (vs : List Json) (rest : List UInt8) : EndsNumber (renderElements vs ++ rest) := by
  cases vs with
  | nil =>
    rw [renderElements]
    exact endsNumber_cons (by decide) (by decide) (by decide) (by decide) rest
  | cons v vs =>
    rw [renderElements]
    exact endsNumber_cons (by decide) (by decide) (by decide) (by decide) _

theorem endsNumber_renderMembers (ms : List (Option String × Json)) (rest : List UInt8) :
    EndsNumber (renderMembers ms ++ rest) := by
  cases ms with
  | nil =>
    rw [renderMembers]
    exact endsNumber_cons (by decide) (by decide) (by decide) (by decide) rest
  | cons member ms =>
    rw [renderMembers]
    exact endsNumber_cons (by decide) (by decide) (by decide) (by decide) _

/-- Every text that is short enough for the bound is read back. -/
structure ReadsBack (depth : Nat) : Prop where
  value : ∀ (v : Json) (rest : List UInt8), 2 * v.render.length ≤ depth + 1 → EndsNumber rest →
    readValue? depth (v.render ++ rest) = some (v, rest)
  elements : ∀ (v : Json) (vs : List Json) (rest : List UInt8),
    2 * (v.render ++ renderElements vs).length ≤ depth + 2 →
    readElements? depth (v.render ++ renderElements vs ++ rest) = some (v :: vs, rest)
  members : ∀ (k : Option String) (v : Json) (ms : List (Option String × Json)) (rest : List UInt8),
    2 * (renderString k ++ Byte.colon :: v.render ++ renderMembers ms).length ≤ depth + 2 →
    readMembers? depth (renderString k ++ Byte.colon :: v.render ++ renderMembers ms ++ rest) = some ((k, v) :: ms, rest)

theorem length_render_pos (v : Json) : 0 < v.render.length := by
  obtain ⟨first, others, heq, -⟩ := exists_render_eq v
  simp [heq]

theorem length_renderElements_pos (vs : List Json) : 0 < (renderElements vs).length := by
  cases vs <;> simp [renderElements]

theorem readsBack_zero : ReadsBack 0 := by
  constructor
  case value =>
    intro v rest hlength
    have hv := length_render_pos v
    omega
  case elements =>
    intro v vs rest hlength
    have hv := length_render_pos v
    have hvs := length_renderElements_pos vs
    rw [List.length_append] at hlength
    omega
  case members =>
    intro k v ms rest hlength
    have hv := length_render_pos v
    simp only [List.length_append, List.length_cons] at hlength
    omega

theorem ReadsBack.succ_elements {depth : Nat} (h : ReadsBack depth) (v : Json) (vs : List Json) (rest : List UInt8)
    (hlength : 2 * (v.render ++ renderElements vs).length ≤ depth + 1 + 2) :
    readElements? (depth + 1) (v.render ++ renderElements vs ++ rest) = some (v :: vs, rest) := by
  rw [List.length_append] at hlength
  have hvs := length_renderElements_pos vs
  have hvalue := h.value v (renderElements vs ++ rest) (by omega) (endsNumber_renderElements vs rest)
  rw [readElements?, List.append_assoc, hvalue]
  cases vs with
  | nil =>
    rw [renderElements]
    rfl
  | cons w ws =>
    rw [renderElements, List.length_append, List.length_cons] at hlength
    have hrest := h.elements w ws rest (by rw [List.length_append]; omega)
    rw [renderElements, List.cons_append]
    change ((readElements? depth (w.render ++ renderElements ws ++ rest)).bind fun _ => _) = _
    rw [hrest]
    rfl

theorem ReadsBack.succ_members {depth : Nat} (h : ReadsBack depth) (k : Option String) (v : Json)
    (ms : List (Option String × Json)) (rest : List UInt8)
    (hlength : 2 * (renderString k ++ Byte.colon :: v.render ++ renderMembers ms).length ≤ depth + 1 + 2) :
    readMembers? (depth + 1) (renderString k ++ Byte.colon :: v.render ++ renderMembers ms ++ rest) =
      some ((k, v) :: ms, rest) := by
  simp only [List.length_append, List.length_cons] at hlength
  have hvalue := h.value v (renderMembers ms ++ rest) (by omega) (endsNumber_renderMembers ms rest)
  have hkey := readKey?_renderString k (v.render ++ (renderMembers ms ++ rest))
  rw [readMembers?, List.append_assoc, List.append_assoc, List.cons_append, hkey]
  change ((readValue? depth (v.render ++ (renderMembers ms ++ rest))).bind fun _ => _) = _
  rw [hvalue]
  cases ms with
  | nil =>
    rw [renderMembers]
    rfl
  | cons member ms =>
    obtain ⟨l, w⟩ := member
    rw [renderMembers] at hlength
    simp only [List.length_append, List.length_cons] at hlength
    have hrest := h.members l w ms rest (by simp only [List.length_append, List.length_cons]; omega)
    rw [renderMembers, List.cons_append]
    change ((readMembers? depth (renderString l ++ Byte.colon :: w.render ++ renderMembers ms ++ rest)).bind fun _ => _) = _
    rw [hrest]
    rfl

/-- An array whose first element does not close it goes on with its elements. -/
theorem readValue?_openBracket {first : UInt8} (hblank : Byte.isBlank first = false) (hclose : first ≠ Byte.closeBracket)
    (depth : Nat) (rest : List UInt8) :
    readValue? (depth + 1) (Byte.openBracket :: first :: rest) =
      (readElements? depth (first :: rest)).map fun found => (.array found.1, found.2) := by
  rw [readValue?, skipBlanks_cons (by decide)]
  split
  · rename_i after heq
    obtain ⟨-, rfl⟩ := List.cons.inj heq
    rw [skipBlanks_cons hblank]
    split
    · rename_i heq
      exact absurd (List.cons.inj heq).1 hclose
    · rfl
  · rename_i heq
    exact absurd (List.cons.inj heq).1 (by decide)
  · rename_i hbracket _
    exact absurd rfl (hbracket _)

/-- An object whose first key does not close it goes on with its members. -/
theorem readValue?_openBrace {first : UInt8} (hblank : Byte.isBlank first = false) (hclose : first ≠ Byte.closeBrace)
    (depth : Nat) (rest : List UInt8) :
    readValue? (depth + 1) (Byte.openBrace :: first :: rest) =
      (readMembers? depth (first :: rest)).map fun found => (.object found.1, found.2) := by
  rw [readValue?, skipBlanks_cons (by decide)]
  split
  · rename_i heq
    exact absurd (List.cons.inj heq).1 (by decide)
  · rename_i after heq
    obtain ⟨-, rfl⟩ := List.cons.inj heq
    rw [skipBlanks_cons hblank]
    split
    · rename_i heq
      exact absurd (List.cons.inj heq).1 hclose
    · rfl
  · rename_i hbrace
    exact absurd rfl (hbrace _)

theorem ReadsBack.succ_value {depth : Nat} (h : ReadsBack depth) (v : Json) (rest : List UInt8)
    (hlength : 2 * v.render.length ≤ depth + 1 + 1) (hrest : EndsNumber rest) :
    readValue? (depth + 1) (v.render ++ rest) = some (v, rest) := by
  cases v with
  | null => rfl
  | bool value => cases value <;> rfl
  | number value => exact readValue?_renderNumber value depth hrest
  | string text => exact readValue?_renderString text depth rest
  | array elements =>
    cases elements with
    | nil => rfl
    | cons v vs =>
      rw [render, List.cons_append, List.length_cons] at hlength
      have helements := h.elements v vs rest (by omega)
      obtain ⟨first, others, heq, hblank, hclose, -⟩ := exists_render_eq v
      rw [render, List.cons_append, List.cons_append, heq, List.cons_append, List.cons_append,
        readValue?_openBracket hblank hclose]
      rw [heq, List.cons_append, List.cons_append] at helements
      rw [helements]
      rfl
  | object members =>
    cases members with
    | nil => rfl
    | cons member ms =>
      obtain ⟨k, v⟩ := member
      rw [render] at hlength
      have hmembers := h.members k v ms rest (by simp at hlength ⊢; omega)
      obtain ⟨body, hbody, -⟩ := exists_renderString_eq k
      rw [render, hbody]
      rw [hbody] at hmembers
      simp only [List.cons_append] at hmembers ⊢
      rw [readValue?_openBrace (by decide) (by decide), hmembers]
      rfl

/-- One more call reads every text back that is short enough for it. -/
theorem ReadsBack.succ {depth : Nat} (h : ReadsBack depth) : ReadsBack (depth + 1) :=
  ⟨h.succ_value, h.succ_elements, h.succ_members⟩

theorem readsBack_of_depth (depth : Nat) : ReadsBack depth := by
  induction depth with
  | zero => exact readsBack_zero
  | succ depth ih => exact ih.succ

/-- Every value is read back from its text. -/
theorem parse?_render (v : Json) : parse? v.render = some v := by
  have hread := (readsBack_of_depth (2 * v.render.length + 1)).value v [] (by omega) (by simp [EndsNumber])
  rw [List.append_nil] at hread
  rw [parse?, hread]
  rfl

end StackMachine.Json
