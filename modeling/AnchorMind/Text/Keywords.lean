import AnchorMind.Kernel.FirstOf
import Mathlib.Data.List.Count
import Mathlib.Data.List.Sort
import Mathlib.Data.String.Basic

/-!
# Keywords of a text

`extractKeywords` takes the code identifiers of a text as they are written, then its
words in lower case, the most frequent first.  The lower case mapping of the standard
library is a parameter.
-/

namespace AnchorMind.Text.Keywords

open Kernel.FirstOf

/-- `\w` of a regular expression without the unicode flag. -/
def isWordChar (c : Char) : Bool := c.isAlphanum || c == '_'

def isSyllable (c : Char) : Bool := 0xAC00 ≤ c.toNat && c.toNat ≤ 0xD7A3

def isConsonant (c : Char) : Bool := 0x3131 ≤ c.toNat && c.toNat ≤ 0x314E

def runs (kind : Char -> Bool) (text : String) : List (List Char) :=
  (text.toList.splitOnP fun c => !kind c).filter fun run => !run.isEmpty

/-- `[a-z0-9]*[A-Z][A-Za-z0-9]*` on the whole of a run. -/
def isCamel (rest : List Char) : Bool := rest.all Char.isAlphanum && rest.any Char.isUpper

/-- `[A-Za-z0-9]*_[A-Za-z0-9_]+` on the whole of a run of word characters. -/
def isSnake (rest : List Char) : Bool :=
  match rest.dropWhile Char.isAlphanum with
  | '_' :: _ :: _ => true
  | _ => false

/-- `IDENT` begins and ends at word boundaries and all it matches are word characters, so
it matches whole runs of these. -/
def isIdentifier : List Char -> Bool
  | [] => false
  | first :: rest => first.isAlpha && (isCamel rest || isSnake rest)

def identifiers (text : String) : List String :=
  firsts id (((runs isWordChar text).filter isIdentifier).map String.ofList)

def stopwords : List String :=
  ["이", "그", "저", "것", "수", "등", "및", "를", "을", "에",
    "의", "가", "는", "은", "도", "로", "와", "과", "한", "하",
    "the", "a", "an", "is", "are", "was", "were", "be", "been",
    "have", "has", "had", "do", "does", "did", "will", "would",
    "should", "could", "can", "may", "might", "this", "that",
    "with", "from", "for", "and", "but", "or", "not", "in",
    "on", "at", "to", "of", "it", "its", "by", "as"]

/-- `JOSA`, in the order of its alternatives: the longer ones match further to the left. -/
def particles : List String :=
  ["까지", "부터", "에서", "에게", "으로", "라는", "에는",
    "를", "을", "는", "은", "이", "가", "의", "에", "로", "도", "와", "과", "만"]

def dropParticle (word : List Char) : List Char :=
  match particles.find? fun particle => particle.toList.isSuffixOf word with
  | none => word
  | some particle => word.take (word.length - particle.length)

def stem (word : List Char) : List Char :=
  if word.any isSyllable then
    let stripped := dropParticle word
    if 2 ≤ stripped.length then stripped else word
  else word

/-- Every other character is a blank to the source, and blanks separate the words. -/
def words (lower : String -> String) (text : String) : List String :=
  let pieces := runs (fun c => isWordChar c || isConsonant c || isSyllable c) (lower text)
  (pieces.map fun piece => String.ofList (stem piece)).filter fun word =>
    decide (1 < word.length) && decide (word ∉ stopwords)

def ranked (lower : String -> String) (text : String) : List String :=
  let found := words lower text
  (firsts id found).insertionSort fun left right => found.count right ≤ found.count left

def extractKeywords (lower : String -> String) (text : String) (maxCount : Nat) : List String :=
  (firsts lower (identifiers text ++ ranked lower text)).take maxCount

theorem mem_extractKeywords_of_identifier {lower : String -> String} {text first : String}
    {maxCount : Nat} (hfirst : (identifiers text).head? = some first) (hpos : 0 < maxCount) :
    first ∈ extractKeywords lower text maxCount := by
  obtain ⟨rest, hrest⟩ := List.head?_eq_some_iff.mp hfirst
  have hhead : (firsts lower (first :: (rest ++ ranked lower text))).head? = some first :=
    head?_firsts first _
  obtain ⟨more, hmore⟩ := List.head?_eq_some_iff.mp hhead
  obtain ⟨count, rfl⟩ := Nat.exists_eq_succ_of_ne_zero (Nat.ne_of_gt hpos)
  rw [extractKeywords, hrest, List.cons_append, hmore, List.take_succ_cons]
  exact List.mem_cons_self

end AnchorMind.Text.Keywords
