import StackMachine.Function.Fingerprint
import StackMachine.Proofs.Assembly.Assembled

/-!
# What a fingerprint tells apart

A fingerprint takes in the name, the frame, the code and the static blocks of a function one after the other.  A list that
is preceded by its length, or whose length is known, can be told from what follows it (`delimited_append_inj`,
`flatMap_append_inj`), so equal bytes come from equal names, frames and code.

The offsets at which a block is loaded are not preceded by their number, and neither are the blocks.  An offset can
therefore be taken for the length of a further block: `fingerprintBytes_collision` gives two functions, both of them
accepted, that are not told apart.  This is the only way to fail.  Where the blocks record equally many loads, as far as
both functions have blocks, equal bytes come from equal blocks (`Function.agree_of_fingerprintBytes`).  Assembling records
a load for each instruction that names the block, so assembled functions are told apart by their code and the data of
their blocks: `Builder.map_contents_of_fingerprintBytes`.
-/

namespace StackMachine

/-- Every list of a function has a length that fits a register. -/
structure Function.FitsRegister (f : Function) : Prop where
  name : (encodeUtf8 f.name).length < Size.bound
  localOffsets : f.localOffsets.length < Size.bound
  code : f.code.size < Size.bound
  data : ∀ block ∈ f.staticData, block.data.size < Size.bound

instance (f : Function) : Decidable f.FitsRegister :=
  decidable_of_iff
    ((encodeUtf8 f.name).length < Size.bound ∧ f.localOffsets.length < Size.bound ∧ f.code.size < Size.bound ∧
      ∀ block ∈ f.staticData, block.data.size < Size.bound)
    ⟨fun ⟨hname, hoffsets, hcode, hdata⟩ => ⟨hname, hoffsets, hcode, hdata⟩,
      fun ⟨hname, hoffsets, hcode, hdata⟩ => ⟨hname, hoffsets, hcode, hdata⟩⟩

/-- What a block is made of, its identifier apart. -/
def Block.contents (block : Block) : Bytes × List UInt64 :=
  (block.data, block.loadOffsets)

/-! ### Lists that can be told from what follows them -/

theorem littleEndian_inj {width m n : Nat} (hm : m < Nat.pow 256 width) (hn : n < Nat.pow 256 width)
    (h : littleEndian width m = littleEndian width n) : m = n := by
  rw [← ofLittleEndian_littleEndian hm, h, ofLittleEndian_littleEndian hn]

private theorem littleEndian_append_inj {width m n : Nat} (hm : m < Nat.pow 256 width) (hn : n < Nat.pow 256 width)
    {rest rest' : List UInt8} (h : littleEndian width m ++ rest = littleEndian width n ++ rest') :
    m = n ∧ rest = rest' := by
  obtain ⟨hnumber, hrest⟩ := List.append_inj h (by simp)
  exact ⟨littleEndian_inj hm hn hnumber, hrest⟩

/-- Bytes behind their length can be told from what follows them. -/
theorem delimited_append_inj {a b rest rest' : List UInt8} (ha : a.length < Size.bound) (hb : b.length < Size.bound)
    (h : delimited a ++ rest = delimited b ++ rest') : a = b ∧ rest = rest' := by
  unfold delimited at h
  rw [List.append_assoc, List.append_assoc] at h
  obtain ⟨hlength, hbytes⟩ := littleEndian_append_inj ha hb h
  exact List.append_inj hbytes hlength

/-- A known number of entries of one width can be told from what follows them. -/
theorem flatMap_append_inj {α : Type} {encode : α → List UInt8} {width : Nat} (hwidth : ∀ a, (encode a).length = width)
    (hinj : ∀ a b, encode a = encode b → a = b) {l k : List α} {rest rest' : List UInt8} (hlength : l.length = k.length)
    (h : l.flatMap encode ++ rest = k.flatMap encode ++ rest') : l = k ∧ rest = rest' := by
  induction l generalizing k with
  | nil =>
    obtain rfl := List.length_eq_zero_iff.1 hlength.symm
    exact ⟨rfl, h⟩
  | cons a l ih =>
    cases k with
    | nil => cases hlength
    | cons b k =>
      rw [List.flatMap_cons, List.flatMap_cons, List.append_assoc, List.append_assoc] at h
      obtain ⟨hhead, htail⟩ := List.append_inj h (by rw [hwidth, hwidth])
      obtain ⟨rfl, hrest⟩ := ih (by simpa using hlength) htail
      exact ⟨by rw [hinj a b hhead], hrest⟩

private theorem encodeOffset_inj (a b : UInt64) (h : littleEndian 8 a.toNat = littleEndian 8 b.toNat) : a = b := by
  apply UInt64.toNat_inj.1
  exact littleEndian_inj (show a.toNat < Nat.pow 256 8 from a.toNat_lt) b.toNat_lt h

private theorem encodeLocal_inj (a b : UInt32) (h : littleEndian 4 a.toNat = littleEndian 4 b.toNat) : a = b := by
  apply UInt32.toNat_inj.1
  exact littleEndian_inj (show a.toNat < Nat.pow 256 4 from a.toNat_lt) b.toNat_lt h

theorem encodeUtf8_inj {a b : String} (h : encodeUtf8 a = encodeUtf8 b) : a = b := by
  have hdecode := decodeUtf8?_encodeUtf8 a
  rw [h, decodeUtf8?_encodeUtf8] at hdecode
  exact (Option.some.inj hdecode).symm

/-! ### Static blocks -/

/-- A block with a known number of loads can be told from what follows it. -/
theorem Block.fingerprintBytes_append_inj {a b : Block} (ha : a.data.size < Size.bound) (hb : b.data.size < Size.bound)
    (hcount : a.loadOffsets.length = b.loadOffsets.length) {rest rest' : List UInt8}
    (h : a.fingerprintBytes ++ rest = b.fingerprintBytes ++ rest') : a.contents = b.contents ∧ rest = rest' := by
  unfold Block.fingerprintBytes at h
  rw [List.append_assoc, List.append_assoc] at h
  obtain ⟨hdata, hoffsets⟩ := delimited_append_inj (by simpa using ha) (by simpa using hb) h
  obtain ⟨hloads, hrest⟩ := flatMap_append_inj (fun _ => length_littleEndian _ _) encodeOffset_inj hcount hoffsets
  refine ⟨?_, hrest⟩
  rw [Block.contents, Block.contents, Array.toList_inj.1 hdata, hloads]

theorem Block.fingerprintBytes_ne_nil (block : Block) : block.fingerprintBytes ≠ [] := by
  intro h
  have hlength := congrArg List.length h
  simp [Block.fingerprintBytes, delimited] at hlength

theorem Block.length_loadOffsets_of_contents {a b : Block} (h : a.contents = b.contents) :
    a.loadOffsets.length = b.loadOffsets.length :=
  congrArg (fun contents => contents.2.length) h

/-- Blocks that record equally many loads, as far as both lists go, are the same blocks if their bytes are equal. -/
theorem map_contents_of_flatMap {as bs : List Block} (has : ∀ a ∈ as, a.data.size < Size.bound)
    (hbs : ∀ b ∈ bs, b.data.size < Size.bound)
    (hcount : ∀ (k : Nat) (a b : Block), as[k]? = some a → bs[k]? = some b →
      a.loadOffsets.length = b.loadOffsets.length)
    (h : as.flatMap Block.fingerprintBytes = bs.flatMap Block.fingerprintBytes) :
    as.map Block.contents = bs.map Block.contents := by
  induction as generalizing bs with
  | nil =>
    cases bs with
    | nil => rfl
    | cons b bs =>
      rw [List.flatMap_cons, List.flatMap_nil] at h
      exact absurd (List.append_eq_nil_iff.1 h.symm).1 b.fingerprintBytes_ne_nil
  | cons a as ih =>
    cases bs with
    | nil =>
      rw [List.flatMap_cons, List.flatMap_nil] at h
      exact absurd (List.append_eq_nil_iff.1 h).1 a.fingerprintBytes_ne_nil
    | cons b bs =>
      rw [List.flatMap_cons, List.flatMap_cons] at h
      obtain ⟨hhead, htail⟩ := Block.fingerprintBytes_append_inj (has a (by simp)) (hbs b (by simp))
        (hcount 0 a b rfl rfl) h
      have hrest := ih (fun c hc => has c (by simp [hc])) (fun c hc => hbs c (by simp [hc]))
        (fun k c d hc hd => hcount (k + 1) c d hc hd) htail
      rw [List.map_cons, List.map_cons, hhead, hrest]

/-! ### Functions -/

/-- Name, frame and code can be told from the static blocks, and from each other. -/
theorem Function.fingerprintBytes_inj {f g : Function} (hf : f.FitsRegister) (hg : g.FitsRegister)
    (h : f.fingerprintBytes = g.fingerprintBytes) :
    f.name = g.name ∧ f.localOffsets = g.localOffsets ∧ f.localSize = g.localSize ∧ f.code = g.code ∧
      f.staticData.flatMap Block.fingerprintBytes = g.staticData.flatMap Block.fingerprintBytes := by
  unfold Function.fingerprintBytes at h
  simp only [List.append_assoc] at h
  obtain ⟨hname, h⟩ := delimited_append_inj hf.name hg.name h
  obtain ⟨hcount, h⟩ := littleEndian_append_inj hf.localOffsets hg.localOffsets h
  obtain ⟨hoffsets, h⟩ := flatMap_append_inj (fun _ => length_littleEndian _ _) encodeLocal_inj hcount h
  obtain ⟨hsize, h⟩ := littleEndian_append_inj f.localSize.toNat_lt g.localSize.toNat_lt h
  obtain ⟨hcode, hblocks⟩ := delimited_append_inj (by simpa using hf.code) (by simpa using hg.code) h
  exact ⟨encodeUtf8_inj hname, hoffsets, UInt32.toNat_inj.1 hsize, Array.toList_inj.1 hcode, hblocks⟩

/-- Two functions that are not told apart have the same name, frame and code, and the same blocks exactly if their blocks
record equally many loads. -/
theorem Function.agree_of_fingerprintBytes {f g : Function} (hf : f.FitsRegister) (hg : g.FitsRegister)
    (h : f.fingerprintBytes = g.fingerprintBytes) :
    f.name = g.name ∧ f.localOffsets = g.localOffsets ∧ f.localSize = g.localSize ∧ f.code = g.code ∧
      (f.staticData.map Block.contents = g.staticData.map Block.contents ↔
        ∀ (k : Nat) (a b : Block), f.staticData[k]? = some a → g.staticData[k]? = some b →
          a.loadOffsets.length = b.loadOffsets.length) := by
  obtain ⟨hname, hoffsets, hsize, hcode, hblocks⟩ := Function.fingerprintBytes_inj hf hg h
  refine ⟨hname, hoffsets, hsize, hcode, ?_, fun hcount => map_contents_of_flatMap hf.data hg.data hcount hblocks⟩
  intro hcontents k a b ha hb
  have hk := congrArg (·[k]?) hcontents
  simp only [List.getElem?_map, ha, hb, Option.map_some, Option.some.injEq] at hk
  exact Block.length_loadOffsets_of_contents hk

/-- One empty block, loaded by the first instruction. -/
def loadedBlock : Function :=
  { name := "f", localOffsets := [], localSize := 0
    code := encodeAll [⟨.loadStaticAddress, .dataAddress 0⟩, .plain .ret]
    staticData := [⟨#[], [0], none⟩] }

/-- The same with an identifier. -/
def taggedBlock : Function :=
  { loadedBlock with staticData := [⟨#[], [0], some ⟨1, none⟩⟩] }

theorem Function.agree_of_fingerprintBytes_taggedBlock :
    loadedBlock.FitsRegister ∧ taggedBlock.FitsRegister ∧ loadedBlock.fingerprintBytes = taggedBlock.fingerprintBytes ∧
      loadedBlock.staticData.map Block.contents = taggedBlock.staticData.map Block.contents := by
  have hloaded : loadedBlock.FitsRegister := by decide
  have htagged : taggedBlock.FitsRegister := by decide
  have hbytes : loadedBlock.fingerprintBytes = taggedBlock.fingerprintBytes := by decide +kernel
  obtain ⟨-, -, -, -, hblocks⟩ := Function.agree_of_fingerprintBytes hloaded htagged hbytes
  refine ⟨hloaded, htagged, hbytes, hblocks.2 fun k a b ha hb => ?_⟩
  cases k with
  | zero =>
    cases ha
    cases hb
    rfl
  | succ k => cases ha

/-- Two empty blocks, and a load that belongs to none of them. -/
def spareBlocks : Function :=
  { loadedBlock with staticData := [⟨#[], [], none⟩, ⟨#[], [], none⟩] }

/-- A recorded load at offset zero has the bytes of one more empty block. -/
theorem fingerprintBytes_collision :
    loadedBlock.verify = .ok () ∧ spareBlocks.verify = .ok () ∧
      loadedBlock.fingerprintBytes = spareBlocks.fingerprintBytes ∧
      loadedBlock.staticData.map Block.contents ≠ spareBlocks.staticData.map Block.contents := by
  decide +kernel

/-! ### Assembled functions -/

/-- Whether an instruction of assembled code loads the address of the block with the given number. -/
def Instruction.loadsBlock (number : Nat) (i : Instruction) : Bool :=
  match i.operand with
  | .dataAddress word => word.toUInt32.toNat == number
  | _ => false

/-- An assembled function records as many loads of a block as its code has. -/
theorem Builder.length_loadOffsets (builder : Builder) (offsetOf : Nat → Nat) (number : Nat) :
    (builder.loadOffsets offsetOf number).length =
      (builder.emissions.toList.map (builder.instruction offsetOf)).countP (Instruction.loadsBlock number) := by
  rw [Builder.loadOffsets, List.length_filterMap_eq_countP, List.countP_map]
  have hpositions : builder.emissions.toList = builder.emissions.toList.zipIdx.map Prod.fst :=
    (List.zipIdx_map_fst 0 _).symm
  conv_rhs => rw [hpositions, List.countP_map]
  congr 1
  funext ⟨emission, position⟩
  cases emission with
  | staticAddress handle =>
    by_cases hnumber : handle.index.toNat = number <;>
      simp [Builder.instruction, Instruction.loadsBlock, hnumber]
  | plain | immediate | localAddress | branch => rfl

/-- Assembled functions that are not told apart have the same blocks. -/
theorem Builder.map_contents_of_fingerprintBytes {builder other : Builder} {f g : Function}
    (hassemble : builder.assemble = .ok f) (hother : other.assemble = .ok g) (hf : f.FitsRegister) (hg : g.FitsRegister)
    (h : f.fingerprintBytes = g.fingerprintBytes) :
    f.staticData.map Block.contents = g.staticData.map Block.contents := by
  obtain ⟨-, -, -, hcode, hblocks⟩ := Function.fingerprintBytes_inj hf hg h
  have hfirst := Builder.assembles_of_assemble hassemble
  have hsecond := Builder.assembles_of_assemble hother
  -- the same code has the same loads, whichever builder it comes from
  have hinstructions : builder.instructions = other.instructions := by
    apply encodeAll_inj hfirst.verified.wellFormed hsecond.verified.wellFormed
    rw [← hfirst.verified.code_eq, ← hsecond.verified.code_eq, hcode]
  refine map_contents_of_flatMap hf.data hg.data (fun k a b ha hb => ?_) hblocks
  rw [hfirst.staticData_eq, builder.getElem?_staticData] at ha
  rw [hsecond.staticData_eq, other.getElem?_staticData] at hb
  obtain ⟨-, -, rfl⟩ := Option.map_eq_some_iff.1 ha
  obtain ⟨-, -, rfl⟩ := Option.map_eq_some_iff.1 hb
  dsimp only
  rw [builder.length_loadOffsets, other.length_loadOffsets]
  exact congrArg (List.countP (Instruction.loadsBlock k)) hinstructions

end StackMachine
