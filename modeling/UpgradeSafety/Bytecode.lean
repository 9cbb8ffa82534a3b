import UpgradeSafety.Cbor.Meaning
import UpgradeSafety.Failure
import UpgradeSafety.Hash.Keccak

/-!
# Versions of bytecode

A contract is known by the hash of its creation bytecode. The compiler appends metadata, which
changes with comments and file paths, followed by its length in bytes; a second hash leaves it out.
Bytecode that is not linked yet holds placeholders and is no hexadecimal text; it is hashed as it
stands.

Whether bytes are metadata, one map and nothing behind it, is for a decoder to say. Nothing but its
answer is used, so it is a parameter; by default it is the one of this library.
-/

namespace UpgradeSafety.Bytecode

/-- The mark in front of hexadecimal text, if there is one, and the text behind it. -/
def splitMark (bytecode : String) : List Char × List Char :=
  match bytecode.toList with
  | '0' :: 'x' :: body => (['0', 'x'], body)
  | body => ([], body)

/-- The hash of bytecode. -/
def hash (bytecode : String) : String :=
  let body := String.ofList (splitMark bytecode).2
  let bytes := (Text.bytesOfHex? body).getD (Text.utf8Bytes body)
  "0x" ++ Text.hexOfBytes (Hash.keccak256 bytes)

/-- The length of the metadata that the last four digits of a body write. -/
def metadataLength? (body : List Char) : Option Int :=
  if body.length < 4 then none
  else (Numeral.readInteger .sixteen (String.ofList (body.drop (body.length - 4)))).toOption

/-- The body in front of the metadata; none when the body does not end in metadata, as a decoder tells
it. -/
def beforeMetadata? (isOneMap : List UInt8 → Bool) (body : List Char) : Option (List Char) := do
  let length ← metadataLength? body
  let start := (body.length : Int) - 4 - length * 2
  if length = 0 || start < 0 then none
  else
    let metadata := (body.take (body.length - 4)).drop start.toNat
    let bytes ← Text.bytesOfHex? (String.ofList metadata)
    if isOneMap bytes then some (body.take start.toNat) else none

/-- Bytecode without its metadata. -/
def bare (bytecode : String) (isOneMap : List UInt8 → Bool := Cbor.isOneMap) : String :=
  let (mark, body) := splitMark bytecode
  match beforeMetadata? isOneMap body with
  | some front => String.ofList (mark ++ front)
  | none => bytecode

/-- The hashes that identify a compiled contract. -/
structure Version where
  complete : String
  bare : String
  linkedBare : String
  deriving DecidableEq, Repr

/-- The version of bytecode. The linked form has the addresses of libraries filled in; it is the
bytecode itself when it is not given. -/
def version (bytecode : String) (linked : Option String := none)
    (isOneMap : List UInt8 → Bool := Cbor.isOneMap) : Except Failure Version :=
  if (splitMark bytecode).2.isEmpty then .error (.badValue .abstractContract)
  else
    let linked := match linked with
      | some l => if l.isEmpty then bytecode else l
      | none => bytecode
    .ok ⟨hash bytecode, hash (bare bytecode isOneMap), hash (bare linked isOneMap)⟩

end UpgradeSafety.Bytecode
