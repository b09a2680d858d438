/-
# Digests

The digest of bytes is their SHA-256 hash, thirty-two bytes. It is written by
`toText` as sixty-four hexadecimal digits in lower case and read in either case.
Digests are ordered by their bytes.

Key definitions: `Digest`, `Digest.ofBytes`, `Digest.toText`, `Digest.read`.
-/
import Covenant.Digest.Sha256
import Covenant.Ordered.Set
import Covenant.Text.Bytes
import Covenant.Text.Hex

namespace Covenant

/-- Thirty-two bytes that stand for a content. -/
structure Digest where
  bytes : List UInt8
  length_bytes : bytes.length = 32
deriving DecidableEq

instance : Ord Digest := ⟨compareOn Digest.bytes⟩

instance : Std.TransOrd Digest := inferInstanceAs (Std.TransCmp (compareOn Digest.bytes))

namespace Digest

/-- The digest of `bytes`: their SHA-256 hash. -/
def ofBytes (bytes : List UInt8) : Digest := ⟨Sha256.hash bytes, Sha256.length_hash bytes⟩

/-- The digest of the bytes of `s`. -/
def ofText (s : String) : Digest := ofBytes (Text.bytes s)

/-- The sixty-four characters of the digest `d`. -/
def toChars (d : Digest) : List Char := Hex.ofBytes d.bytes

/-- The digest in text. -/
def toText (d : Digest) : String := String.ofList d.toChars

/-- A text that is no digest. -/
structure Unreadable where
  input : String
deriving DecidableEq

/-- Quotes the `input` that was to be a digest. -/
def Unreadable.message (e : Unreadable) : String := s!"invalid content hash '{e.input}'"

/-- Reads sixty-four hexadecimal digits, in either case, and nothing else. -/
def read (s : String) : Except Unreadable Digest :=
  match Hex.bytes? s.toList with
  | some bytes => if h : bytes.length = 32 then .ok ⟨bytes, h⟩ else .error ⟨s⟩
  | none => .error ⟨s⟩

end Digest
end Covenant
