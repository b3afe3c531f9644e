/-!
# SchemaCatalog.Text.Blank

Blank characters (the Unicode property White_Space) and the words of a text, which are its maximal
runs of other characters. A reference attribute holds its names as words.
-/

namespace SchemaCatalog.Text

/-- The characters with the Unicode property White_Space. -/
def isBlank (c : Char) : Bool :=
  let n := c.toNat
  (0x09 ≤ n && n ≤ 0x0D) || n == 0x20 || n == 0x85 || n == 0xA0 || n == 0x1680 ||
    (0x2000 ≤ n && n ≤ 0x200A) || n == 0x2028 || n == 0x2029 || n == 0x202F || n == 0x205F ||
    n == 0x3000

/-- A word in front of others, left out if it is empty. -/
def pushWord (word : List Char) (words : List (List Char)) : List (List Char) :=
  if word.isEmpty then words else word :: words

/-- The characters before the first blank, and the words behind it. -/
def splitAtBlanks : List Char → List Char × List (List Char)
  | [] => ([], [])
  | c :: rest =>
    let (word, words) := splitAtBlanks rest
    if isBlank c then ([], pushWord word words) else (c :: word, words)

/-- The maximal runs of characters that are not blank, in order. -/
def words (s : String) : List String :=
  let (word, more) := splitAtBlanks s.toList
  (pushWord word more).map String.ofList

end SchemaCatalog.Text
