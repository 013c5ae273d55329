/-
# `Ethrex.Lib.HashStandIn` — a computable stand-in for Keccak-256

Keccak-256 is a parameter of the models.  The witnesses evaluate them with
one stand-in that keeps the first 32 bytes of its input, padded with zeros:
a 32-byte input is its own hash, and a node, a message or a pair of hashes
longer than that is named by its first 32 bytes.
-/
import Mathlib.Data.Vector.Defs

namespace Ethrex

/-- The first 32 bytes of `bytes`, padded with zeros. -/
def firstBytes32 (bytes : List UInt8) : List.Vector UInt8 32 :=
  ⟨(bytes ++ List.replicate 32 0).take 32, by simp⟩

end Ethrex
