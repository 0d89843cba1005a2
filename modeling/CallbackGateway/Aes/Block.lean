import CallbackGateway.Text.Utf8

/-!
# Blocks of sixteen bytes

The cipher works on four columns of four bytes. Columns and blocks are combined byte by byte
with exclusive or, and a sequence of bytes whose length is a multiple of sixteen is a list of
blocks.
-/

namespace CallbackGateway.Aes

/-- Four bytes of a block. -/
structure Column where
  a : UInt8
  b : UInt8
  c : UInt8
  d : UInt8
  deriving DecidableEq, Repr

/-- Sixteen bytes as four columns. -/
structure Block where
  c0 : Column
  c1 : Column
  c2 : Column
  c3 : Column
  deriving DecidableEq, Repr

/-- A block of equal bytes. -/
def Block.filled (b : UInt8) : Block :=
  ⟨⟨b, b, b, b⟩, ⟨b, b, b, b⟩, ⟨b, b, b, b⟩, ⟨b, b, b, b⟩⟩

/-- Combine two columns byte by byte. -/
def Column.xor (x y : Column) : Column := ⟨x.a ^^^ y.a, x.b ^^^ y.b, x.c ^^^ y.c, x.d ^^^ y.d⟩

/-- Apply a function to every byte of a column. -/
def Column.map (f : UInt8 → UInt8) (x : Column) : Column := ⟨f x.a, f x.b, f x.c, f x.d⟩

/-- Combine two blocks byte by byte. -/
def Block.xor (x y : Block) : Block :=
  ⟨x.c0.xor y.c0, x.c1.xor y.c1, x.c2.xor y.c2, x.c3.xor y.c3⟩

/-- Apply a function to every column of a block. -/
def Block.map (f : Column → Column) (x : Block) : Block := ⟨f x.c0, f x.c1, f x.c2, f x.c3⟩

/-- The bytes of a column. -/
def Column.toBytes (x : Column) : Bytes := [x.a, x.b, x.c, x.d]

/-- The bytes of a block. -/
def Block.toBytes (x : Block) : Bytes :=
  x.c0.toBytes ++ x.c1.toBytes ++ x.c2.toBytes ++ x.c3.toBytes

/-- The bytes of a list of blocks. -/
def Block.join (blocks : List Block) : Bytes := blocks.flatMap Block.toBytes

/-- Cut bytes into blocks; there must be no bytes left over. -/
def Block.split? : Bytes → Option (List Block)
  | [] => some []
  | b0 :: b1 :: b2 :: b3 :: b4 :: b5 :: b6 :: b7 :: b8 :: b9 :: b10 :: b11 :: b12 :: b13 :: b14 ::
      b15 :: rest =>
    (Block.split? rest).map fun blocks =>
      ⟨⟨b0, b1, b2, b3⟩, ⟨b4, b5, b6, b7⟩, ⟨b8, b9, b10, b11⟩, ⟨b12, b13, b14, b15⟩⟩ :: blocks
  | _ => none

/-- Combining twice with the same column changes nothing. -/
@[simp] theorem Column.xor_xor_cancel (x y : Column) : (x.xor y).xor y = x := by
  simp only [Column.xor, UInt8.xor_assoc, UInt8.xor_self, UInt8.xor_zero]

/-- Combining twice with the same block changes nothing. -/
@[simp] theorem Block.xor_xor_cancel (x y : Block) : (x.xor y).xor y = x := by
  simp [Block.xor]

/-- The bytes of blocks are cut back into the same blocks. -/
@[simp] theorem Block.split?_join (blocks : List Block) :
    Block.split? (Block.join blocks) = some blocks := by
  induction blocks with
  | nil => rfl
  | cons x rest ih =>
    have step : Block.join (x :: rest) = x.toBytes ++ Block.join rest := rfl
    rw [step]
    simp only [Block.toBytes, Column.toBytes, List.cons_append, List.nil_append, Block.split?, ih,
      Option.map_some]

/-- A block has sixteen bytes. -/
@[simp] theorem Block.toBytes_length (x : Block) : x.toBytes.length = 16 := rfl

end CallbackGateway.Aes
