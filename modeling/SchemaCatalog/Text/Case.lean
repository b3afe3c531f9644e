import SchemaCatalog.Text.Case.Cased
import SchemaCatalog.Text.Case.Ignorable
import SchemaCatalog.Text.Case.Lower

/-!
# SchemaCatalog.Text.Case

The lower case of a text by the rules of Unicode. All characters are mapped one by one, with two
exceptions: a capital I with a dot becomes two characters, and a capital sigma at the end of a word
has a lower case of its own.
-/

namespace SchemaCatalog.Text

open Case

/-- Is the nearest character that counts one with a case? -/
def besideCased (cs : List Char) : Bool := ((cs.dropWhile isIgnorable).head?.map isCased).getD false

/-- The lower case of the characters of a text, behind the characters `before`, last first. -/
def lowerAfter (before : List Char) : List Char → List Char
  | [] => []
  | c :: rest =>
    (if c = 'Σ' then [if besideCased before && ! besideCased rest then 'ς' else 'σ']
      else if c = 'İ' then ['i', '\u0307']
      else [simpleLower c]) ++ lowerAfter (c :: before) rest

def lower (s : String) : String := String.ofList (lowerAfter [] s.toList)

end SchemaCatalog.Text
