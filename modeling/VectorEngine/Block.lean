/-
Blocks of binary numbers.

A block is a run of elements of one format and byte order. Reading an integer
gives the nearest double; writing one rounds to the nearest integer, a half
going away from zero, and saturates at the bounds of the format.
-/
import VectorEngine.Error

namespace VectorEngine

/-- The element formats: signed and unsigned integers and reals, with their
size in bytes. -/
inductive NumberFormat
  | i1
  | i2
  | i4
  | i8
  | u1
  | u2
  | u4
  | u8
  | r4
  | r8
deriving DecidableEq, Repr

namespace NumberFormat

/-- Bytes per element. -/
def size : NumberFormat → Nat
  | i1 | u1 => 1
  | i2 | u2 => 2
  | i4 | u4 | r4 => 4
  | i8 | u8 | r8 => 8

def isReal : NumberFormat → Bool
  | r4 | r8 => true
  | _ => false

def isSigned : NumberFormat → Bool
  | i1 | i2 | i4 | i8 => true
  | _ => false

def tag : NumberFormat → String
  | i1 => "i1"
  | i2 => "i2"
  | i4 => "i4"
  | i8 => "i8"
  | u1 => "u1"
  | u2 => "u2"
  | u4 => "u4"
  | u8 => "u8"
  | r4 => "r4"
  | r8 => "r8"

def all : List NumberFormat := [i1, i2, i4, i8, u1, u2, u4, u8, r4, r8]

def ofString (s : String) : Except Error NumberFormat :=
  match all.find? fun f => f.tag == s with
  | some f => .ok f
  | none => .error (.invalidArg s .unknownFormat)

/-- How many words an element can be. -/
def modulus (f : NumberFormat) : Nat := Nat.pow 256 f.size

/-- The least and the largest integer of an integer format. -/
def bounds (f : NumberFormat) : Int × Int :=
  if f.isSigned then (-(f.modulus / 2 : Nat), (f.modulus / 2 : Nat) - 1) else (0, f.modulus - 1)

/-- The integer a word stands for, in two's complement if the format is
signed. -/
def integer (f : NumberFormat) (word : Nat) : Int :=
  if f.isSigned ∧ f.modulus / 2 ≤ word then word - f.modulus else word

/-- The integer of the format nearest a double. -/
def saturate (f : NumberFormat) (x : Float) : Int :=
  match Interchange.double.read x.toBits.toNat with
  | .finite e => max f.bounds.1 (min f.bounds.2 e.round)
  | .infinite true => f.bounds.1
  | .infinite false => f.bounds.2
  | .nan => 0

/-- The pattern of a quiet NaN. -/
def quietNaN (i : Interchange) : Nat := i.infinity + Nat.pow 2 (i.precision - 2)

/-- The double nearest the element a word encodes. -/
def readWord (f : NumberFormat) (word : Nat) : Float :=
  match f with
  | r8 => Float.ofBits (UInt64.ofNat word)
  | r4 =>
    match Interchange.single.read word with
    | .finite e => e.toFloat
    | .infinite negative => infinite negative
    | .nan => nan
  | _ => Exact.intToFloat (f.integer word)

/-- The word of the element nearest a double. -/
def writeWord (f : NumberFormat) (x : Float) : Nat :=
  match f with
  | r8 => if x.isNaN then quietNaN .double else x.toBits.toNat
  | r4 =>
    match Interchange.double.read x.toBits.toNat with
    | .finite e => Interchange.single.write e.negative e.num e.den
    | .infinite negative => (if negative then Interchange.single.signBit else 0) + Interchange.single.infinity
    | .nan => quietNaN .single
  | _ => (f.saturate x % (f.modulus : Int)).toNat

end NumberFormat

inductive ByteOrder
  | little
  | big
  | native
deriving DecidableEq, Repr

namespace ByteOrder

def ofString : String → Except Error ByteOrder
  | "little" => .ok little
  | "big" => .ok big
  | "native" => .ok native
  | other => .error (.invalidArg other .unknownOrder)

/-- Bytes from the least significant on, put into this order, or back. The
native order has the least significant byte first. -/
def arrange (o : ByteOrder) (bytes : List UInt8) : List UInt8 :=
  match o with
  | big => bytes.reverse
  | little | native => bytes

end ByteOrder

namespace Block

/-- The number written by bytes from the least significant on. -/
def wordOfBytes (bytes : List UInt8) : Nat := bytes.foldr (fun b n => b.toNat + 256 * n) 0

/-- The `size` low bytes of a word, the least significant first. -/
def bytesOfWord (size word : Nat) : List UInt8 :=
  (List.range size).map fun i => UInt8.ofNat (word / Nat.pow 256 i % 256)

/-- The first `count` elements of a block, each still as bytes. -/
def elements (size : Nat) : (count : Nat) → List UInt8 → List (List UInt8)
  | 0, _ => []
  | count + 1, bytes => bytes.take size :: elements size count (bytes.drop size)

/-- The values of a block, which must hold whole elements. -/
def decode (bytes : List UInt8) (format : NumberFormat) (order : ByteOrder) : Except Error (List Float) :=
  if bytes.length % format.size = 0 then
    let elements := elements format.size (bytes.length / format.size) bytes
    .ok (elements.map fun b => format.readWord (wordOfBytes (order.arrange b)))
  else
    .error (.invalidArg "bytes" (.partialElement bytes.length format.tag))

def encodeElement (format : NumberFormat) (order : ByteOrder) (x : Float) : List UInt8 :=
  order.arrange (bytesOfWord format.size (format.writeWord x))

/-- The block of some values. Blanks are left out when `skipEmpty` is set;
else no integer format can hold them. -/
def encode (values : List Float) (format : NumberFormat) (order : ByteOrder) (skipEmpty : Bool) :
    Except Error (List UInt8) :=
  let kept := if skipEmpty then values.filter (!·.isNaN) else values
  if !format.isReal && kept.any Float.isNaN then
    .error (.invalidArg format.tag .emptyAsInteger)
  else
    .ok (kept.flatMap (encodeElement format order))

end Block
end VectorEngine
