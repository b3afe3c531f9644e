import SchemaCatalog.Json.Reader
import SchemaCatalog.Settings.Basic

/-!
# SchemaCatalog.Settings.Encoding

How settings stand in JSON, and how they are read back. Everything is written; whatever is missing
when they are read takes its default.
-/

namespace SchemaCatalog.Settings

open Json (Reader)

def Format.encode (f : Format) : Json := .string f.name

def Format.reader : Reader Format := Reader.named byName

def encodeLists (t : Table String (List String)) : Json :=
  .object (t.entries.map fun e => (e.1, .texts e.2))

def encode (s : Settings) : Json :=
  .object
    [("builtins", .object
        [("include_xsd", .bool s.builtins.includeXsd), ("extra", encodeLists s.builtins.extra)]),
      ("merge", .object [("dedup_external_references", .bool s.merge.dedup)]),
      ("resolve", .object [("strict", .bool s.resolve.strict)]),
      ("loader", .object
        [("extension", .string s.loader.extension), ("skip_prefixes", .texts s.loader.skip)]),
      ("output", .object [("format", s.output.format.encode)])]

def BuiltinSection.reader : Reader BuiltinSection :=
  Reader.withDefaults
    [.optional "include_xsd" Reader.flag fun s v => { s with includeXsd := v },
      .optional "extra" (Reader.table (Reader.list Reader.text)) fun s v => { s with extra := v }]
    {}

def MergeSection.reader : Reader MergeSection :=
  Reader.withDefaults
    [.optional "dedup_external_references" Reader.flag fun s v => { s with dedup := v }] {}

def ResolveSection.reader : Reader ResolveSection :=
  Reader.withDefaults [.optional "strict" Reader.flag fun s v => { s with strict := v }] {}

def LoaderSection.reader : Reader LoaderSection :=
  Reader.withDefaults
    [.optional "extension" Reader.text fun s v => { s with extension := v },
      .optional "skip_prefixes" (Reader.list Reader.text) fun s v => { s with skip := v }]
    {}

def OutputSection.reader : Reader OutputSection :=
  Reader.withDefaults [.optional "format" Format.reader fun s v => { s with format := v }] {}

def reader : Reader Settings :=
  Reader.withDefaults
    [.optional "builtins" BuiltinSection.reader fun s v => { s with builtins := v },
      .optional "merge" MergeSection.reader fun s v => { s with merge := v },
      .optional "resolve" ResolveSection.reader fun s v => { s with resolve := v },
      .optional "loader" LoaderSection.reader fun s v => { s with loader := v },
      .optional "output" OutputSection.reader fun s v => { s with output := v }]
    {}

end SchemaCatalog.Settings
