import StackMachine.Json.Parser
import StackMachine.Json.Printer
import StackMachine.Json.Record
import StackMachine.Size

/-!
# Configurations

A configuration gives the sizes of the regions of memory, the alignment of static data, and how many instructions a run may
begin.  The size of the whole image is computed in 64-bit steps and has to be a word.
-/

namespace StackMachine

/-- Sizes and limits. -/
structure Config where
  /-- The region for static data is rounded up to a multiple of this. -/
  dataSegmentAlignment : UInt64 := 1024
  stackSize : UInt64 := 1024
  heapSize : UInt64 := 2048
  /-- Every static block starts at a multiple of this. -/
  staticDataAlignment : UInt64 := 4
  /-- Instructions that a run may begin, if they are limited. -/
  instructionLimit : Option UInt64 := none
deriving DecidableEq, Repr

/-- Why a configuration is refused. -/
inductive ConfigFlaw where
  /-- The text is no configuration. -/
  | unreadable
  | zeroDataSegmentAlignment
  | zeroStaticDataAlignment
  /-- The image with this much static data would have addresses that are no words. -/
  | imageTooLarge (staticDataSize : Nat)
deriving DecidableEq, Repr

/-- The wording of a flaw. -/
def ConfigFlaw.message : ConfigFlaw → String
  | .unreadable => "not a configuration"
  | .zeroDataSegmentAlignment => "data_segment_alignment must be non-zero"
  | .zeroStaticDataAlignment => "static_data_alignment must be non-zero"
  | .imageTooLarge staticDataSize =>
    s!"memory image with {staticDataSize} bytes of static data exceeds {maxWord} bytes"

/-- The size of the image, computed in 64-bit steps. -/
def Config.imageSize? (config : Config) (staticDataSize : Nat) : Option Nat := do
  let data ← Size.roundUp? staticDataSize config.dataSegmentAlignment.toNat
  let withStack ← Size.add? data config.stackSize.toNat
  Size.add? withStack config.heapSize.toNat

/-- The size of the image with the given amount of static data. -/
def Config.imageSize (config : Config) (staticDataSize : Nat) : Except ConfigFlaw Nat :=
  match config.imageSize? staticDataSize with
  | some total => if total ≤ maxWord then .ok total else .error (.imageTooLarge staticDataSize)
  | none => .error (.imageTooLarge staticDataSize)

/-- Accepts a configuration under which at least an image without static data can be made. -/
def Config.validate (config : Config) : Except ConfigFlaw Unit :=
  if config.dataSegmentAlignment = 0 then .error .zeroDataSegmentAlignment
  else if config.staticDataAlignment = 0 then .error .zeroStaticDataAlignment
  else (config.imageSize 0).map fun _ => ()

/-! ### JSON -/

/-- The members of a configuration's record. -/
def Config.members (config : Config) : List (String × Json) :=
  [("data_segment_alignment", .ofNat config.dataSegmentAlignment.toNat),
   ("stack_size", .ofNat config.stackSize.toNat),
   ("heap_size", .ofNat config.heapSize.toNat),
   ("static_data_alignment", .ofNat config.staticDataAlignment.toNat),
   ("instruction_limit", .ofOption (fun limit => .ofNat limit.toNat) config.instructionLimit)]

/-- The fields of a configuration's record; each has its default. -/
def Config.fields : List Field :=
  (Config.members {}).map fun member => .withDefault member.1 member.2

/-- A configuration's record. -/
def Config.toJson (config : Config) : Json :=
  .ofMembers config.members

/-- The configuration of a record. -/
def Config.ofJson? (value : Json) : Option Config :=
  match value.fields? Config.fields with
  | some [dataSegmentAlignment, stackSize, heapSize, staticDataAlignment, instructionLimit] => do
    let dataSegmentAlignment ← dataSegmentAlignment.toUInt64?
    let stackSize ← stackSize.toUInt64?
    let heapSize ← heapSize.toUInt64?
    let staticDataAlignment ← staticDataAlignment.toUInt64?
    let instructionLimit ← instructionLimit.toOption? Json.toUInt64?
    return { dataSegmentAlignment, stackSize, heapSize, staticDataAlignment, instructionLimit }
  | _ => none

/-- The text of a configuration. -/
def Config.render (config : Config) : List UInt8 :=
  config.toJson.render

/-- The configuration of a text, if it is accepted. -/
def Config.parse (text : List UInt8) : Except ConfigFlaw Config :=
  match (Json.parse? text).bind Config.ofJson? with
  | none => .error .unreadable
  | some config => config.validate.map fun _ => config

end StackMachine
