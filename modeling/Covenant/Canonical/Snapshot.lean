/-
# Snapshots

A `Snapshot` is a contract with the values of the variables it is run with: what
one holder passes to another, and what the commands keep in files.

Key definitions: `Snapshot`, `Snapshot.canonical`, `Snapshot.pretty`,
`Snapshot.read`.
-/
import Covenant.Canonical.Arrangement

namespace Covenant

/-- A contract and the values of its variables. -/
structure Snapshot where
  arrangement : Arrangement
  bindings : Bindings

namespace Snapshot

/-- A snapshot in JSON: an object of `arrangement` and `bindings`. -/
def toJson (s : Snapshot) : Json :=
  .object [("arrangement", s.arrangement.toJson), ("bindings", .ofMap Decimal.toJson s.bindings)]

/-- The canonical text of `s`: its JSON without blanks. -/
def canonical (s : Snapshot) : String := s.toJson.compact

/-- The text of `s` for people to read. -/
def pretty (s : Snapshot) : String := s.toJson.pretty

/-- The digest of `s.canonical`. -/
def digest (s : Snapshot) : Digest := .ofText s.canonical

/-- Whether `s` and `s'` agree up to the written form of decimals. -/
def agrees (s s' : Snapshot) : Bool :=
  s.arrangement.agrees s'.arrangement && s.bindings.agrees s'.bindings

/-- The two fields in JSON; `bindings` may be missing. -/
def fields? : Json → Option (Json × Json)
  | .object members => do
    let arrangement ← Json.member? members "arrangement"
    if members.any fun m => decide (m.1 = "bindings") then
      return (arrangement, ← Json.member? members "bindings")
    else return (arrangement, .object [])
  | .array [arrangement] => some (arrangement, .object [])
  | .array [arrangement, bindings] => some (arrangement, bindings)
  | _ => none

/-- A snapshot from JSON, not checked. -/
def ofJson? (j : Json) : Option Snapshot := do
  let (arrangement, bindings) ← fields? j
  return ⟨← Arrangement.ofJson? arrangement, ← bindings.map? Decimal.ofJson?⟩

/-- Reads a snapshot from `bytes`; its contract must pass its checks. -/
def read (bytes : List UInt8) : Except StoredError Snapshot :=
  match Json.read? bytes >>= ofJson? with
  | some s =>
    match s.arrangement.validate with
    | .ok () => .ok s
    | .error cause => .error (.invalid cause)
  | none => .error .malformed

end Snapshot
end Covenant
