import SchemaCatalog.Text.Digits
import SchemaCatalog.Toml.Scan

/-!
# SchemaCatalog.Toml.Writer

Writing settings files: sections with a header each, and in them lines with a key and a value.

A text stands in double quotes if nothing in it has to be escaped there, else in single quotes if it
can, else in three double or three single quotes if it can; otherwise it is escaped. Several lines
always stand in three quotes.
-/

namespace SchemaCatalog.Toml

/-! ## Texts -/

structure Features where
  control : Bool := false
  backslash : Bool := false
  newline : Bool := false
  singles : Nat := 0
  doubles : Nat := 0
  deriving DecidableEq, Repr

def isControl (c : Char) : Bool := ! isPlain c && c != '\n'

/-- The length of the longest run of a character, if a run of `current` ends where the text
begins. -/
def longestRun (x : Char) (current : Nat) : List Char → Nat
  | [] => current
  | c :: rest =>
    if c = x then longestRun x (current + 1) rest else max current (longestRun x 0 rest)

def Features.of (cs : List Char) : Features where
  control := cs.any isControl
  backslash := cs.contains '\\'
  newline := cs.contains '\n'
  singles := longestRun '\'' 0 cs
  doubles := longestRun '"' 0 cs

/-- The number of a character in four hexadecimal digits at least, the letters in upper case. -/
def upperHex (n : Nat) : List Char := (Text.toHex 4 n).toList.map Char.toUpper

/-- How a character other than a quote stands in double quotes. -/
def escape (lines : Bool) (c : Char) : List Char :=
  if c = '\x08' then ['\\', 'b']
  else if c = '\t' then ['\\', 't']
  else if c = '\n' then (if lines then ['\n'] else ['\\', 'n'])
  else if c = '\x0c' then ['\\', 'f']
  else if c = '\r' then ['\\', 'r']
  else if c = '\\' then ['\\', '\\']
  else if isPlain c then [c]
  else '\\' :: 'u' :: upperHex c.toNat

/-- The characters of a text in double quotes. In a text of several lines two quotes may stand side
by side; `run` counts those right before. -/
def escapeAll (lines : Bool) (run : Nat) : List Char → List Char
  | [] => []
  | '"' :: rest =>
    if lines && run < 2 then '"' :: escapeAll lines (run + 1) rest
    else '\\' :: '"' :: escapeAll lines 0 rest
  | c :: rest => escape lines c ++ escapeAll lines 0 rest

def inQuotes (cs : List Char) : List Char := '"' :: escapeAll false 0 cs ++ ['"']

def inSingleQuotes (cs : List Char) : List Char := '\'' :: cs ++ ['\'']

def opening (f : Features) : List Char := if f.newline then ['\n'] else []

def inTripleQuotes (f : Features) (cs : List Char) : List Char :=
  ['"', '"', '"'] ++ opening f ++ escapeAll true 0 cs ++ ['"', '"', '"']

def inTripleSingleQuotes (f : Features) (cs : List Char) : List Char :=
  ['\'', '\'', '\''] ++ opening f ++ cs ++ ['\'', '\'', '\'']

def writeText (text : String) : String :=
  let cs := text.toList
  let f := Features.of cs
  String.ofList <|
    if ! f.control && ! f.backslash && f.doubles = 0 && ! f.newline then inQuotes cs
    else if ! f.control && f.singles = 0 && ! f.newline then inSingleQuotes cs
    else if ! f.control && ! f.backslash && f.doubles ≤ 2 then inTripleQuotes f cs
    else if ! f.control && f.singles ≤ 2 then inTripleSingleQuotes f cs
    else if f.newline then inTripleQuotes f cs
    else inQuotes cs

def writeKey (key : String) : String :=
  let cs := key.toList
  let f := Features.of cs
  if ! cs.isEmpty && cs.all isKeyChar then key
  else String.ofList <|
    if ! f.control && ! f.newline && f.singles = 0 && (f.backslash || 0 < f.doubles) then
      inSingleQuotes cs
    else inQuotes cs

/-! ## Sections -/

/-- A value in a section. -/
inductive Entry
  | flag (flag : Bool)
  | text (text : String)
  | texts (texts : List String)
  deriving DecidableEq, Repr

/-- A header and the lines below it. -/
structure Section where
  path : List String
  entries : List (String × Entry) := []
  deriving DecidableEq, Repr

/-- How a value is written. Two or more texts stand on lines of their own. -/
def Entry.write : Entry → String
  | flag true => "true"
  | flag false => "false"
  | text s => writeText s
  | texts [] => "[]"
  | texts [s] => "[" ++ writeText s ++ "]"
  | texts ss => "[\n" ++ String.join (ss.map fun s => "    " ++ writeText s ++ ",\n") ++ "]"

def Section.write (s : Section) : String :=
  "[" ++ ".".intercalate (s.path.map writeKey) ++ "]\n" ++
    String.join (s.entries.map fun e => writeKey e.1 ++ " = " ++ e.2.write ++ "\n")

/-- The text of a file, with an empty line between sections. -/
def write (sections : List Section) : String := "\n".intercalate (sections.map (·.write))

end SchemaCatalog.Toml
