import Mathlib.Algebra.Order.Field.Rat
import Mathlib.Data.String.Basic
import Mathlib.Tactic.NormNum.Ineq

/-!
# Fragment rows and the fragments that are about to be written

The columns of the fragments table that deduplication, merging, and quotas read.
The hash of a content is a parameter: the factory keeps the first characters of
the digest, the writer keeps the whole of it.
-/

namespace AnchorMind.Write.Fragments

/-- The `importance` column with its check constraint. -/
abbrev Importance := { value : Rat // 0 ≤ value /\ value ≤ 1 }

def defaultImportance : Importance := ⟨1 / 2, by norm_num⟩

structure ContentHash where
  of : String -> String
  width : Nat
  width_pos : 0 < width
  length_of : ∀ content, (of content).length = width

theorem ContentHash.of_ne_empty (hash : ContentHash) (content : String) : hash.of content ≠ "" := by
  intro hempty
  have hlength := hash.length_of content
  have hpos := hash.width_pos
  rw [hempty] at hlength
  simp at hlength
  omega

/-- The digest of the standard library, in hexadecimal. -/
structure Sha256 where
  hex : String -> String
  length_hex : ∀ content, (hex content).length = 64

namespace Sha256

def computeContentHash (sha : Sha256) : ContentHash where
  of := sha.hex
  width := 64
  width_pos := by decide
  length_of := sha.length_hex

/-- The hash the factory stores: the first sixteen characters of the digest. -/
def hashContent (sha : Sha256) : ContentHash where
  of content := String.ofList ((sha.hex content).toList.take 16)
  width := 16
  width_pos := by decide
  length_of content := by
    have hlength := sha.length_hex content
    rw [String.length_ofList, List.length_take, String.length_toList, hlength]
    decide

end Sha256

structure Row where
  id : String
  keyId : Option String
  workspace : Option String
  content : String
  type : String
  contentHash : String
  importance : Importance
  isAnchor : Bool
  idempotencyKey : Option String
  validTo : Option Nat
deriving DecidableEq

/-- A fragment that passed the write gate.  `anchorQuota` is the mark the gate
leaves on an anchor designation of a key that has a limit. -/
structure Fragment (hash : ContentHash) where
  id : String
  content : String
  type : String
  contentHash : String
  importance : Option Importance
  isAnchor : Bool
  anchorQuota : Bool
  workspace : Option String
  idempotencyKey : Option String
  hashed : contentHash = hash.of content

namespace Fragment

variable {hash : ContentHash}

theorem contentHash_ne_empty (fragment : Fragment hash) : fragment.contentHash ≠ "" := by
  rw [fragment.hashed]
  exact hash.of_ne_empty fragment.content

theorem length_contentHash (fragment : Fragment hash) :
    fragment.contentHash.length = hash.width := by
  rw [fragment.hashed, hash.length_of]

end Fragment

end AnchorMind.Write.Fragments
