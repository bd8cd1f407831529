import StackMachine.Function.Json
import StackMachine.Proofs.Json.Records
import StackMachine.Proofs.Json.Values

/-!
# Functions are read back from their texts

Writing a function and reading the text gives the function, every field of it: also whether it has been relocated, and the
labels of identifiers, which play no part where functions are compared.
-/

namespace StackMachine

theorem Identifier.ofJson?_toJson (identifier : Identifier) : Identifier.ofJson? identifier.toJson = some identifier := by
  obtain ⟨id, label⟩ := identifier
  cases label with
  | none =>
    have hkeys : ["id"].Nodup := by decide
    have hfields : (Identifier.toJson ⟨id, none⟩).fields? Identifier.fields = some [.ofNat id.toNat, .null] :=
      Json.fields?_ofMembers _ hkeys
    rw [Identifier.ofJson?, hfields]
    dsimp only
    rw [Json.toUInt64?_ofNat]
    rfl
  | some label =>
    have hkeys : ["id", "label"].Nodup := by decide
    have hfields : (Identifier.toJson ⟨id, some label⟩).fields? Identifier.fields =
        some [.ofNat id.toNat, .ofString label] :=
      Json.fields?_ofMembers _ hkeys
    rw [Identifier.ofJson?, hfields]
    dsimp only
    rw [Json.toUInt64?_ofNat]
    rfl

theorem Identifier.toJson_ne_null (identifier : Identifier) : identifier.toJson ≠ .null := by
  intro h
  cases h

theorem Block.ofJson?_toJson (block : Block) : Block.ofJson? block.toJson = some block := by
  have hkeys : ["data", "load_offsets", "identifier"].Nodup := by decide
  have hfields : block.toJson.fields? Block.fields =
      some [.ofList (fun byte => .ofNat byte.toNat) block.data.toList,
        .ofList (fun offset => .ofNat offset.toNat) block.loadOffsets,
        .ofOption Identifier.toJson block.identifier] :=
    Json.fields?_ofMembers _ hkeys
  rw [Block.ofJson?, hfields]
  dsimp only
  rw [Json.toList?_ofList Json.toUInt8?_ofNat, Json.toList?_ofList Json.toUInt64?_ofNat,
    Json.toOption?_ofOption Identifier.ofJson?_toJson Identifier.toJson_ne_null]
  rfl

theorem Function.ofJson?_toJson (f : Function) : Function.ofJson? f.toJson = some f := by
  have hkeys : ["name", "local_offsets", "local_size", "code", "static_data", "patched"].Nodup := by decide
  have hfields : f.toJson.fields? Function.fields =
      some [.ofString f.name, .ofList (fun offset => .ofNat offset.toNat) f.localOffsets, .ofNat f.localSize.toNat,
        .ofList (fun byte => .ofNat byte.toNat) f.code.toList, .ofList Block.toJson f.staticData, .bool f.patched] :=
    Json.fields?_ofMembers _ hkeys
  rw [Function.ofJson?, hfields]
  dsimp only
  rw [Json.toString?_ofString, Json.toList?_ofList Json.toUInt32?_ofNat, Json.toUInt32?_ofNat,
    Json.toList?_ofList Json.toUInt8?_ofNat, Json.toList?_ofList Block.ofJson?_toJson]
  rfl

/-- A function is read back from its text, every field of it. -/
theorem Function.parse?_render_eq_some (f : Function) : Function.parse? f.render = some f := by
  rw [Function.parse?, Function.render, Json.parse?_render, Option.bind_some, Function.ofJson?_toJson]

end StackMachine
