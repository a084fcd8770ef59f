import ObjectFeed.Bytes

/-!
# Inflating

Decompression of raw deflate data: blocks that are stored, or coded with fixed or with
transmitted prefix codes. What follows the last block is ignored.

* `Code`: canonical prefix codes; `Code.ofLengths?` refuses impossible lengths.
* `inflate`: the decompressed bytes.
-/

namespace ObjectFeed.Inflate

/-- The bits that are left, least significant bit of each byte first. -/
abbrev Bits := List Bool

/-- The bits of a byte. -/
def bitsOf (x : UInt8) : Bits := (List.range 8).map fun i => x.toNat.testBit i

/-- Readers of bits. -/
abbrev Reader := StateT Bits Option

/-- One bit. -/
def bit : Reader Bool := fun bs =>
  match bs with
  | [] => none
  | b :: bs => some (b, bs)

/-- A number of `n` bits, least significant first. -/
def number : (n : Nat) → Reader Nat
  | 0 => pure 0
  | n + 1 => do
    let b ← bit
    return b.toNat + 2 * (← number n)

/-- A canonical prefix code: how many codewords each length from 1 on has, and the symbols in
the order of their codewords. -/
structure Code where
  counts : List Nat
  symbols : Array Nat

namespace Code

/-- The longest codeword. -/
def maxLength : Nat := 15

/-- The symbols whose codewords have a length. -/
def ofLength (lengths : List Nat) (n : Nat) : List Nat :=
  (lengths.zipIdx.filter fun l => l.1 == n).map (·.2)

/-- The code with the lengths, where zero stands for an unused symbol. Lengths that do not use
up all codewords are possible only with fewer than two symbols. -/
def ofLengths? (lengths : List Nat) : Option Code :=
  let groups := (List.range maxLength).map fun i => ofLength lengths (i + 1)
  let counts := groups.map List.length
  let used := groups.flatten.length
  let free : Int := counts.foldl (fun (free : Int) (n : Nat) => 2 * free - n) 1
  if free = 0 ∨ (used ≤ 1 ∧ 0 ≤ free) then some ⟨counts, groups.flatten.toArray⟩ else none

/-- The symbol of the next codeword. Of the codewords of the current length, `first` is the
lowest and `index` the place of its symbol; `code` is what has been read so far. -/
def symbolFrom (c : Code) : (counts : List Nat) → (code first index : Nat) → Reader Nat
  | [], _, _, _ => failure
  | n :: counts, code, first, index => do
    let code := code + (← bit).toNat
    if code < first + n then
      match c.symbols[index + (code - first)]? with
      | some s => pure s
      | none => failure
    else symbolFrom c counts (2 * code) (2 * (first + n)) (index + n)

/-- The symbol of the next codeword. -/
def symbol (c : Code) : Reader Nat := c.symbolFrom c.counts 0 0 0

end Code

/-- The base values and extra bits of the length symbols from 257 on. -/
def lengthTable : List (Nat × Nat) :=
  [(3, 0), (4, 0), (5, 0), (6, 0), (7, 0), (8, 0), (9, 0), (10, 0), (11, 1), (13, 1), (15, 1),
    (17, 1), (19, 2), (23, 2), (27, 2), (31, 2), (35, 3), (43, 3), (51, 3), (59, 3), (67, 4),
    (83, 4), (99, 4), (115, 4), (131, 5), (163, 5), (195, 5), (227, 5), (258, 0)]

/-- The base values and extra bits of the distance symbols. -/
def distanceTable : List (Nat × Nat) :=
  [(1, 0), (2, 0), (3, 0), (4, 0), (5, 1), (7, 1), (9, 2), (13, 2), (17, 3), (25, 3), (33, 4),
    (49, 4), (65, 5), (97, 5), (129, 6), (193, 6), (257, 7), (385, 7), (513, 8), (769, 8),
    (1025, 9), (1537, 9), (2049, 10), (3073, 10), (4097, 11), (6145, 11), (8193, 12),
    (12289, 12), (16385, 13), (24577, 13)]

/-- The value of a symbol in a table, with its extra bits. -/
def tableValue (table : List (Nat × Nat)) (symbol : Nat) : Reader Nat :=
  match table[symbol]? with
  | some (base, extra) => return base + (← number extra)
  | none => failure

/-- The codes of a block: for literals and lengths, and for distances. -/
structure BlockCodes where
  literals : Code
  distances : Code

/-- The codes of fixed blocks. -/
def fixedCodes? : Option BlockCodes := do
  let literals ← Code.ofLengths?
    (List.replicate 144 8 ++ List.replicate 112 9 ++ List.replicate 24 7 ++ List.replicate 8 8)
  let distances ← Code.ofLengths? (List.replicate 32 5)
  return ⟨literals, distances⟩

/-- The order in which the lengths of the length code are sent. -/
def lengthOrder : List Nat := [16, 17, 18, 0, 8, 7, 9, 6, 10, 5, 11, 4, 12, 3, 13, 2, 14, 1, 15]

/-- Repeats the last length or zero a number of times, after the lengths in `acc` (last first);
`limit` bounds the symbols read. -/
def codeLengths (c : Code) (total : Nat) : (limit : Nat) → (acc : List Nat) → Reader (List Nat)
  | 0, _ => failure
  | limit + 1, acc =>
    if acc.length = total then pure acc.reverse
    else if total < acc.length then failure
    else do
      let s ← c.symbol
      if s < 16 then codeLengths c total limit (s :: acc)
      else if s = 16 then
        match acc with
        | [] => failure
        | l :: _ => do
          let n ← number 2
          codeLengths c total limit (List.replicate (n + 3) l ++ acc)
      else if s = 17 then do
        let n ← number 3
        codeLengths c total limit (List.replicate (n + 3) 0 ++ acc)
      else do
        let n ← number 7
        codeLengths c total limit (List.replicate (n + 11) 0 ++ acc)

/-- The codes that a block transmits. -/
def transmittedCodes : Reader BlockCodes := do
  let literals := 257 + (← number 5)
  let distances := 1 + (← number 5)
  let sent := 4 + (← number 4)
  if 286 < literals ∨ 30 < distances then failure
  let given ← (List.range sent).mapM fun _ => number 3
  let placed := (lengthOrder.zip given).foldl (fun ls (i, l) => ls.set i l) (List.replicate 19 0)
  let lengthCode ← (Code.ofLengths? placed : Option Code)
  let lengths ← codeLengths lengthCode (literals + distances) (literals + distances + 1) []
  let c ← (Code.ofLengths? (lengths.take literals) : Option Code)
  let d ← (Code.ofLengths? (lengths.drop literals) : Option Code)
  return ⟨c, d⟩

/-- Appends `n` bytes, each of which is the one `distance` before it. -/
def copy (distance : Nat) : (n : Nat) → (out : Array UInt8) → Option (Array UInt8)
  | 0, out => some out
  | n + 1, out =>
    if distance ≤ out.size then
      match out[out.size - distance]? with
      | some x => copy distance n (out.push x)
      | none => none
    else none

/-- The bytes of a coded block, appended to the ones before; `limit` bounds the symbols. -/
def codedBlock (cs : BlockCodes) : (limit : Nat) → (out : Array UInt8) → Reader (Array UInt8)
  | 0, _ => failure
  | limit + 1, out => do
    let s ← cs.literals.symbol
    if s < 256 then codedBlock cs limit (out.push (UInt8.ofNat s))
    else if s = 256 then pure out
    else
      -- the symbol is a length, and a distance follows
      let n ← tableValue lengthTable (s - 257)
      let distance ← tableValue distanceTable (← cs.distances.symbol)
      let out ← (copy distance n out : Option (Array UInt8))
      codedBlock cs limit out

/-- The bytes of a stored block, appended to the ones before. The block starts at a whole byte;
`size` is the number of bits of the data. -/
def storedBlock (size : Nat) (out : Array UInt8) : Reader (Array UInt8) := do
  let left := (← get).length
  -- the rest of a byte that was begun is passed over
  let _ ← number ((8 - (size - left) % 8) % 8)
  let n ← number 16
  let check ← number 16
  if n + check ≠ 0xFFFF then failure
  let bytes ← (List.range n).mapM fun _ => number 8
  pure (bytes.foldl (fun out x => out.push (UInt8.ofNat x)) out)

/-- The bytes of all blocks, appended to the ones before; `limit` bounds the blocks. -/
def blocks (size : Nat) : (limit : Nat) → (out : Array UInt8) → Reader (Array UInt8)
  | 0, _ => failure
  | limit + 1, out => do
    let last ← bit
    let out ← match ← number 2 with
      | 0 => storedBlock size out
      | 1 =>
        let cs ← (fixedCodes? : Option BlockCodes)
        codedBlock cs (size + 1) out
      | 2 =>
        let cs ← transmittedCodes
        codedBlock cs (size + 1) out
      | _ => failure
    if last then pure out else blocks size limit out

/-- The decompressed bytes. -/
def inflate (b : Bytes) : Option Bytes :=
  let bits := b.flatMap bitsOf
  let size := bits.length
  (blocks size (size + 1) #[] bits).map fun r => r.1.toList

end ObjectFeed.Inflate
