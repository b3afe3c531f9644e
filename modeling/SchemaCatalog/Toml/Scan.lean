import SchemaCatalog.Text.Digits
import SchemaCatalog.Toml.Value

/-!
# SchemaCatalog.Toml.Scan

The parts that a settings file consists of: blanks and comments, keys, quoted texts and numbers. A
scan takes its part from the front of a text and gives the text behind it, or nothing if the part
does not stand there.
-/

namespace SchemaCatalog.Toml

open Text (isDigit digitValue hexValue? hexadecimal? decimal ofDigits)

/-- Takes something from the front of a text. -/
abbrev Scan (α : Type) := List Char → Option (α × List Char)

/-! ## Blanks, comments and lines -/

def isBlank (c : Char) : Bool := c = ' ' || c = '\t'

/-- The characters that may stand anywhere: tabs, and all that are no control characters. -/
def isPlain (c : Char) : Bool := c = '\t' || (0x20 ≤ c.toNat && c.toNat != 0x7F)

def skipBlanks (cs : List Char) : List Char := cs.dropWhile isBlank

/-- The text behind the end of a line. -/
def lineBreak? : List Char → Option (List Char)
  | '\n' :: rest => some rest
  | '\r' :: '\n' :: rest => some rest
  | _ => none

/-- The text behind the rest of a line, on which nothing but blanks and a comment may stand. -/
def lineEnd? (cs : List Char) : Option (List Char) :=
  let cs := match skipBlanks cs with
    | '#' :: rest => rest.dropWhile isPlain
    | cs => cs
  if cs.isEmpty then some [] else lineBreak? cs

/-- The text behind blanks, line ends and comments; a comment has to end with its line. -/
def skipGaps? (inComment : Bool) : List Char → Option (List Char)
  | [] => if inComment then none else some []
  | '\n' :: rest => skipGaps? false rest
  | '\r' :: '\n' :: rest => skipGaps? false rest
  | c :: rest =>
    if inComment then (if isPlain c then skipGaps? true rest else none)
    else if isBlank c then skipGaps? false rest
    else if c = '#' then skipGaps? true rest
    else some (c :: rest)

/-! ## Quoted texts -/

def unescape? : Char → Option Char
  | '"' => some '"'
  | '\\' => some '\\'
  | 'b' => some '\x08'
  | 'f' => some '\x0c'
  | 'n' => some '\n'
  | 'r' => some '\r'
  | 't' => some '\t'
  | _ => none

def charOf? (digits : List Char) : Option Char :=
  (hexadecimal? digits).bind fun n => if h : n.isValidChar then some (Char.ofNatAux n h) else none

def endsLine (cs : List Char) : Bool := (lineBreak? (skipBlanks cs)).isSome

/-- Takes the rest of a text in double quotes, of one line or of several. Behind a backslash at the
end of a line (`skipping`) all blanks and line ends are passed over. -/
def takeQuoted (lines skipping : Bool) (done : List Char) : Scan String
  | [] => none
  | '"' :: '"' :: '"' :: rest =>
    if lines then match rest with
      | '"' :: '"' :: rest => some (String.ofList (done.reverse ++ ['"', '"']), rest)
      | '"' :: rest => some (String.ofList (done.reverse ++ ['"']), rest)
      | rest => some (String.ofList done.reverse, rest)
    else some (String.ofList done.reverse, '"' :: '"' :: rest)
  | '"' :: rest =>
    if lines then takeQuoted lines false ('"' :: done) rest
    else some (String.ofList done.reverse, rest)
  | '\\' :: 'u' :: a :: b :: c :: d :: rest =>
    (charOf? [a, b, c, d]).bind fun x => takeQuoted lines false (x :: done) rest
  | '\\' :: 'U' :: a :: b :: c :: d :: e :: f :: g :: h :: rest =>
    (charOf? [a, b, c, d, e, f, g, h]).bind fun x => takeQuoted lines false (x :: done) rest
  | '\\' :: e :: rest => match unescape? e with
    | some c => takeQuoted lines false (c :: done) rest
    | none =>
      if lines && endsLine (e :: rest) then takeQuoted lines true done (e :: rest) else none
  | '\r' :: '\n' :: rest =>
    if lines then takeQuoted lines skipping (if skipping then done else '\n' :: done) rest
    else none
  | '\n' :: rest =>
    if lines then takeQuoted lines skipping (if skipping then done else '\n' :: done) rest
    else none
  | c :: rest =>
    if skipping && isBlank c then takeQuoted lines true done rest
    else if isPlain c then takeQuoted lines false (c :: done) rest
    else none

/-- Takes the rest of a text in single quotes, of one line or of several. -/
def takeLiteral (lines : Bool) (done : List Char) : Scan String
  | [] => none
  | '\'' :: '\'' :: '\'' :: rest =>
    if lines then match rest with
      | '\'' :: '\'' :: rest => some (String.ofList (done.reverse ++ ['\'', '\'']), rest)
      | '\'' :: rest => some (String.ofList (done.reverse ++ ['\'']), rest)
      | rest => some (String.ofList done.reverse, rest)
    else some (String.ofList done.reverse, '\'' :: '\'' :: rest)
  | '\'' :: rest =>
    if lines then takeLiteral lines ('\'' :: done) rest
    else some (String.ofList done.reverse, rest)
  | '\r' :: '\n' :: rest => if lines then takeLiteral lines ('\n' :: done) rest else none
  | '\n' :: rest => if lines then takeLiteral lines ('\n' :: done) rest else none
  | c :: rest => if isPlain c then takeLiteral lines (c :: done) rest else none

def skipLineBreak (cs : List Char) : List Char := (lineBreak? cs).getD cs

def takeLine : Scan String
  | '"' :: rest => takeQuoted false false [] rest
  | '\'' :: rest => takeLiteral false [] rest
  | _ => none

/-- Takes a text in quotes. A line end right behind three quotes does not belong to it. -/
def takeText : Scan String
  | '"' :: '"' :: '"' :: rest => takeQuoted true false [] (skipLineBreak rest)
  | '\'' :: '\'' :: '\'' :: rest => takeLiteral true [] (skipLineBreak rest)
  | cs => takeLine cs

/-! ## Keys -/

def isKeyChar (c : Char) : Bool :=
  isDigit c || ('a' ≤ c && c ≤ 'z') || ('A' ≤ c && c ≤ 'Z') || c = '_' || c = '-'

def takeKeyPart : Scan String
  | [] => none
  | c :: rest =>
    if c = '"' || c = '\'' then takeLine (c :: rest)
    else
      let word := (c :: rest).takeWhile isKeyChar
      if word.isEmpty then none else some (String.ofList word, (c :: rest).dropWhile isKeyChar)

/-- Takes the parts of a key, with dots between them and blanks around them. -/
def takeKeyParts : Nat → Scan (List String)
  | 0, _ => none
  | fuel + 1, cs => do
    let (part, cs) ← takeKeyPart (skipBlanks cs)
    match skipBlanks cs with
    | '.' :: rest =>
      let (parts, cs) ← takeKeyParts fuel rest
      some (part :: parts, cs)
    | cs => some ([part], cs)

/-- A key has fewer parts than this. -/
def maxKeyParts : Nat := 80

def takeKey : Scan (List String) := takeKeyParts (maxKeyParts - 1)

/-! ## Numbers -/

/-- Takes digits, which may be separated by single underscores. -/
def takeDigits (isDigit : Char → Bool) : Scan (List Char)
  | [] => none
  | [c] => if isDigit c then some ([c], []) else none
  | c :: '_' :: rest =>
    if isDigit c then (takeDigits isDigit rest).map fun r => (c :: r.1, r.2) else none
  | c :: d :: rest =>
    if isDigit c then
      if isDigit d then (takeDigits isDigit (d :: rest)).map fun r => (c :: r.1, r.2)
      else some ([c], d :: rest)
    else none

def takeSign : List Char → Bool × List Char
  | '-' :: rest => (true, rest)
  | '+' :: rest => (false, rest)
  | cs => (false, cs)

def integer? (n : Int) : Option Value :=
  if Text.fitsWord n then some (.integer n) else none

def takeBased (base : Nat) (cs : List Char) : Option (Value × List Char) := do
  let (digits, cs) ← takeDigits (fun c => (hexValue? c).any (· < base)) cs
  let v ← integer? (ofDigits base (digits.filterMap hexValue?))
  some (v, cs)

/-- Takes the digits in front of a decimal point; a zero stands alone. -/
def takeWhole : Scan (List Char)
  | '0' :: rest => some (['0'], rest)
  | cs => takeDigits isDigit cs

def takeExponent (cs : List Char) : Option (Int × List Char) := do
  let (negative, cs) := takeSign cs
  let (digits, cs) ← takeDigits isDigit cs
  some (if negative then -(decimal digits : Int) else decimal digits, cs)

/-- The floating-point number that digits write, unless it is too large. -/
def float? (negative : Bool) (digits : List Char) (scale : Int) : Option Value :=
  match Decimal.Binary64.ofDecimal negative (decimal digits) scale with
  | .infinite false => none
  | x => some (.float x)

def takeScale (cs : List Char) : Option (Option Int × List Char) :=
  match cs with
  | c :: rest =>
    if c = 'e' || c = 'E' then (takeExponent rest).map fun r => (some r.1, r.2)
    else some (none, cs)
  | [] => some (none, [])

def takeUnsigned (negative : Bool) : Scan Value
  | 'i' :: 'n' :: 'f' :: rest => some (.float (.infinite negative), rest)
  | 'n' :: 'a' :: 'n' :: rest => some (.float .undefined, rest)
  | cs => do
    let (whole, cs) ← takeWhole cs
    match cs with
    | '.' :: cs =>
      let (fraction, cs) ← takeDigits isDigit cs
      let (exponent, cs) ← takeScale cs
      let v ← float? negative (whole ++ fraction) (exponent.getD 0 - fraction.length)
      some (v, cs)
    | cs =>
      let (exponent, cs) ← takeScale cs
      let v ← match exponent with
        | some e => float? negative whole e
        | none => integer? (if negative then -(decimal whole : Int) else decimal whole)
      some (v, cs)

def takeNumber : Scan Value
  | '0' :: 'x' :: rest => takeBased 16 rest
  | '0' :: 'o' :: rest => takeBased 8 rest
  | '0' :: 'b' :: rest => takeBased 2 rest
  | cs =>
    let (negative, cs) := takeSign cs
    takeUnsigned negative cs

/-! ## Values -/

def takeScalar : Scan Value
  | 't' :: 'r' :: 'u' :: 'e' :: rest => some (.flag true, rest)
  | 'f' :: 'a' :: 'l' :: 's' :: 'e' :: rest => some (.flag false, rest)
  | '"' :: rest => (takeText ('"' :: rest)).map fun r => (.text r.1, r.2)
  | '\'' :: rest => (takeText ('\'' :: rest)).map fun r => (.text r.1, r.2)
  | cs => takeNumber cs

end SchemaCatalog.Toml
