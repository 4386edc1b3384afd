import DeferredDefaults.Codec

/-!
Reading the expanded text of a source piece by piece. The first read takes all bytes of the source
and decodes them; later reads hand out what is left. A read that fails keeps nothing of what it has
taken.
-/

set_option autoImplicit false
set_option relaxedAutoImplicit false

namespace DeferredDefaults

/-- What comes of taking bytes from a source until it ends or fails. -/
structure Taking (σ : Type) where
  bytes : List UInt8
  /-- The source has failed behind the bytes. -/
  failed : Bool
  /-- The source behind what has been taken. -/
  rest : σ

class Source (σ : Type) where
  /-- Takes bytes until the source ends or fails. -/
  takeAll : σ → Taking σ

/-- Bytes that may fail to come once, after a number of them. -/
structure ByteSource where
  bytes : List UInt8
  failAfter : Option Nat := none
deriving DecidableEq, Repr

instance : Source ByteSource where
  takeAll source := match source.failAfter with
    | none => ⟨source.bytes, false, ⟨[], none⟩⟩
    | some count => ⟨source.bytes.take count, true, ⟨source.bytes.drop count, none⟩⟩

inductive ReadFault where
  /-- The source of bytes fails. -/
  | source
  /-- The bytes cannot be decoded. -/
  | decoding (failure : Failure)
deriving DecidableEq, Repr

def ReadFault.message : ReadFault → String
  | source => "inner failed"
  | decoding failure => failure.message

/-- Decoded bytes, and how many of them have been handed out. -/
structure Buffer where
  bytes : List UInt8
  handedOut : Nat
  handedOut_le : handedOut ≤ bytes.length
deriving DecidableEq, Repr

namespace Buffer

def full (bytes : List UInt8) : Buffer := ⟨bytes, 0, Nat.zero_le _⟩

def available (buffer : Buffer) : List UInt8 := buffer.bytes.drop buffer.handedOut

private theorem length_available (buffer : Buffer) :
    buffer.available.length = buffer.bytes.length - buffer.handedOut := List.length_drop

def copied (buffer : Buffer) (size : Nat) : Nat := min buffer.available.length size

def chunk (buffer : Buffer) (size : Nat) : List UInt8 := buffer.available.take (buffer.copied size)

def advance (buffer : Buffer) (size : Nat) : Buffer where
  bytes := buffer.bytes
  handedOut := buffer.handedOut + buffer.copied size
  handedOut_le := by
    have fits := buffer.handedOut_le
    rw [copied, length_available]
    omega

end Buffer

structure DecodingReader (σ : Type := ByteSource) where
  source : σ
  /-- The codec to use, whatever the header of the source declares. -/
  codec : Option Codec := none
  /-- The decoded bytes, once there are any. -/
  decoded : Option Buffer := none
deriving DecidableEq, Repr

namespace DecodingReader

variable {σ : Type}

/-- The text of all bytes, by the reader's codec or by the one that their header declares. -/
def decode (registry : Registry) (reader : DecodingReader σ) (bytes : List UInt8) :
    Except Failure String :=
  match reader.codec with
  | some codec => codec.decode bytes
  | none => registry.decodeSource bytes

variable [Source σ]

def load (registry : Registry) (reader : DecodingReader σ) :
    Except ReadFault Buffer × DecodingReader σ :=
  let taken := Source.takeAll reader.source
  let emptied := { reader with source := taken.rest }
  if taken.failed then (.error .source, emptied)
  else match reader.decode registry taken.bytes with
    | .error failure => (.error (.decoding failure), emptied)
    | .ok text =>
      let buffer := Buffer.full text.toUTF8.data.toList
      (.ok buffer, { emptied with decoded := some buffer })

/-- The decoded bytes of the source, which is loaded unless this has been done. -/
def fill (registry : Registry) (reader : DecodingReader σ) :
    Except ReadFault Buffer × DecodingReader σ :=
  match reader.decoded with
  | some buffer => (.ok buffer, reader)
  | none => reader.load registry

/-- Reads at most `size` bytes of the expanded text. -/
def read (registry : Registry) (size : Nat) (reader : DecodingReader σ) :
    Except ReadFault (List UInt8) × DecodingReader σ :=
  match reader.fill registry with
  | (.error fault, filled) => (.error fault, filled)
  | (.ok buffer, filled) =>
    (.ok (buffer.chunk size), { filled with decoded := some (buffer.advance size) })

/-- Reads with one size after the other. -/
def readEach (registry : Registry) :
    List Nat → DecodingReader σ → List (Except ReadFault (List UInt8))
  | [], _ => []
  | size :: sizes, reader =>
    let (result, next) := reader.read registry size
    result :: readEach registry sizes next

end DecodingReader

end DeferredDefaults
