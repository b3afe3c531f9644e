import SchemaCatalog.Proofs.Files.Writing
import SchemaCatalog.Proofs.Settings.Layering
import SchemaCatalog.Proofs.Text.Lossy
import SchemaCatalog.Proofs.Toml.Lines
import SchemaCatalog.Settings.Load

/-!
# SchemaCatalog.Proofs.Settings.RoundTrip

Settings that are written to a file and loaded from it.  If no other source of
settings is there, everything comes back as it was except for one thing: keys
count without regard to case, and the namespaces of the extra names are keys
(`load_of_save`).  They come back in lower case, so settings come back unchanged
if and only if their namespaces are in lower case.
-/

namespace SchemaCatalog.Settings

open Files (Tree)
open Toml (Line Reading linesOf ofLines find? store find?_nil find?_cons find?_eq_none)

/-! ## The lines of a settings file -/

/-- The lines up to the extra names. -/
def linesBefore (s : Settings) : List Line :=
  [.header ["builtins"], .pair ["include_xsd"] (.flag s.builtins.includeXsd), .empty,
    .header ["builtins", "extra"]]

def linesOfExtra (es : List (String × List String)) : List Line :=
  es.map fun e => .pair [e.1] (.list (e.2.map .text))

def linesBehind (s : Settings) : List Line :=
  [.empty, .header ["merge"], .pair ["dedup_external_references"] (.flag s.merge.dedup),
    .empty, .header ["resolve"], .pair ["strict"] (.flag s.resolve.strict),
    .empty, .header ["loader"], .pair ["extension"] (.text s.loader.extension),
    .pair ["skip_prefixes"] (.list (s.loader.skip.map .text)),
    .empty, .header ["output"], .pair ["format"] (.text s.output.format.name)]

/-- The lines of the settings are those before the additional names, theirs, and the rest. -/
theorem linesOf_sections (s : Settings) :
    linesOf s.sections =
      s.linesBefore ++ linesOfExtra s.builtins.extra.entries ++ s.linesBehind := by
  simp [linesOf, sections, Toml.Section.lines, linesBefore, linesOfExtra, linesBehind,
    List.intercalate_cons_cons, Toml.Entry.value, Function.comp_def]

theorem proper_sections (s : Settings) : ∀ t ∈ s.sections, t.Proper := by
  simp [sections, Toml.Section.Proper, Toml.maxKeyParts]

/-! ## Reading the lines -/

/-- Names by namespace in a table under construction. -/
def spaceItems (es : List (String × List String)) : Toml.Entries :=
  es.map fun e => (e.1, .value (.list (e.2.map .text)))

/-- The first section of a file with some of the extra names. -/
def builtinsItem (s : Settings) (es : List (String × List String)) : Toml.Item :=
  .table .header [("include_xsd", .value (.flag s.builtins.includeXsd)),
    ("extra", .table .header (spaceItems es))]

/-- A file in the middle of the extra names. -/
def reading (s : Settings) (es : List (String × List String)) : Reading where
  root := [("builtins", s.builtinsItem es)]
  current := ["builtins", "extra"]

theorem foldlM_linesBefore (s : Settings) :
    s.linesBefore.foldlM Reading.step {} = some (s.reading []) := rfl

/-- The line of a namespace adds its names to what has been read. -/
theorem step_extra (s : Settings) {es : List (String × List String)} {key : String}
    (hkey : key ∉ es.map (·.1)) (names : List String) :
    (s.reading es).step (.pair [key] (.list (names.map .text))) =
      some (s.reading (es ++ [(key, names)])) := by
  have hnone : find? (spaceItems es) key = none :=
    find?_eq_none (by simpa [spaceItems] using hkey)
  have hadd : Toml.addPair [key] (.list (names.map .text)) .header (spaceItems es) =
      some (.header, spaceItems (es ++ [(key, names)])) := by
    have happend : spaceItems (es ++ [(key, names)]) =
        spaceItems es ++ [(key, .value (.list (names.map .text)))] := by simp [spaceItems]
    simp [Toml.addPair, Toml.changeAt, Toml.addValue, hnone, happend]
  simp [Reading.step, Reading.change, reading, builtinsItem, Toml.changeAt, find?_cons, store,
    hadd]

/-- The lines of the additional names are read in order. -/
theorem foldlM_linesOfExtra (s : Settings) (es done : List (String × List String))
    (h : ((done ++ es).map (·.1)).Nodup) :
    (linesOfExtra es).foldlM Reading.step (s.reading done) = some (s.reading (done ++ es)) := by
  induction es generalizing done with
  | nil => simp [linesOfExtra]
  | cons e es ih =>
      have hassoc : done ++ e :: es = (done ++ [e]) ++ es := by simp
      rw [hassoc] at h ⊢
      have hkey : e.1 ∉ done.map (·.1) := by
        rw [List.map_append, List.map_append] at h
        have hdone := (List.nodup_append.mp (List.nodup_append.mp h).1).2.2
        exact fun hmem => hdone _ hmem e.1 (by simp) rfl
      have hstep := step_extra s hkey e.2
      rw [linesOfExtra, List.map_cons, List.foldlM_cons, hstep]
      exact ih _ h

/-- A settings file behind its last line. -/
def readingBehind (s : Settings) (es : List (String × List String)) : Reading where
  root := [("builtins", s.builtinsItem es),
    ("merge", .table .header [("dedup_external_references", .value (.flag s.merge.dedup))]),
    ("resolve", .table .header [("strict", .value (.flag s.resolve.strict))]),
    ("loader", .table .header [("extension", .value (.text s.loader.extension)),
      ("skip_prefixes", .value (.list (s.loader.skip.map .text)))]),
    ("output", .table .header [("format", .value (.text s.output.format.name))])]
  current := ["output"]

theorem foldlM_linesBehind (s : Settings) (es : List (String × List String)) :
    s.linesBehind.foldlM Reading.step (s.reading es) = some (s.readingBehind es) := rfl

/-- The table that a settings file describes. -/
theorem ofLines_sections (s : Settings) :
    ofLines (linesOf s.sections) =
      some (Toml.finishEntries (s.readingBehind s.builtins.extra.entries).root) := by
  have hextra := foldlM_linesOfExtra s s.builtins.extra.entries [] s.builtins.extra.nodup_keys
  rw [linesOf_sections, ofLines, List.foldlM_append, List.foldlM_append, foldlM_linesBefore]
  simp only [Option.bind_eq_bind, Option.bind_some]
  rw [hextra]
  simp only [List.nil_append, Option.bind_some, foldlM_linesBehind, Option.map_some]

/-- A list of texts is read as one. -/
theorem ofTomlItems_texts (ts : List String) : Raw.ofTomlItems (ts.map .text) = ts.map .text := by
  induction ts with
  | nil => rfl
  | cons t ts ih =>
      rw [List.map_cons, List.map_cons, ← ih]
      rfl

/-- The entries of the namespaces are read as they were written. -/
theorem ofTomlEntries_spaces (es : List (String × List String)) :
    Raw.ofTomlEntries (Toml.finishEntries (spaceItems es)) = spaces es := by
  induction es with
  | nil => rfl
  | cons e es ih =>
      rw [spaces, List.map_cons, ← spaces, ← ih, ← ofTomlItems_texts]
      rfl

/-- What has been read behind the last line is the layer of the settings. -/
theorem ofTomlEntries_readingBehind (s : Settings) (es : List (String × List String)) :
    Raw.ofTomlEntries (Toml.finishEntries (s.readingBehind es).root) = s.layer es := by
  rw [layer, BuiltinSection.raw, LoaderSection.raw, ← ofTomlEntries_spaces, ← ofTomlItems_texts]
  rfl

/-- A settings file that is written is read as its lines. -/
theorem ofContent?_write {section₀ : Toml.Section} {more : List Toml.Section}
    (h : ∀ t ∈ section₀ :: more, t.Proper) :
    ofContent? (Toml.write (section₀ :: more)).toUTF8 =
      (ofLines (linesOf (section₀ :: more))).map Raw.ofTomlEntries := by
  obtain ⟨cs, hcs⟩ := List.head?_eq_some_iff.mp (Toml.head?_write section₀ more)
  have hmark : skipMark (Toml.write (section₀ :: more)).toUTF8 =
      (Toml.write (section₀ :: more)).toUTF8 := by
    have hbytes : (Toml.write (section₀ :: more)).toUTF8.data.toList =
        0x5B :: cs.flatMap String.utf8EncodeChar := by
      rw [Text.toList_data_toUTF8, hcs]
      rfl
    rw [skipMark, hbytes, if_neg (by simp)]
  rw [ofContent?, hmark, Text.ofBytesLossy_toUTF8, Toml.read_write h]

/-- **A settings file is read as the layer of its settings.** -/
theorem ofContent?_fileText (s : Settings) :
    ofContent? s.fileText.toUTF8 = some (s.layer s.builtins.extra.entries) := by
  have hread : ofContent? s.fileText.toUTF8 = (ofLines (linesOf s.sections)).map Raw.ofTomlEntries :=
    ofContent?_write (proper_sections s)
  rw [hread, ofLines_sections, Option.map_some, ofTomlEntries_readingBehind]

/-! ## Where settings are loaded from -/

/-- Nothing but the file at some path says anything about settings: whatever
other file would be read is that file, and no variable is meant for settings. -/
structure Sources.Only (s : Sources) (path : String) : Prop where
  files : ∀ name ∈ localFiles, ∀ found, findFile s.tree name = some found →
    s.tree.resolve found = s.tree.resolve path
  user : ∀ name ∈ s.userFile, s.tree.resolve name = s.tree.resolve path
  environment : ∀ v ∈ s.environment, variableKey? v.1 = none

/-- The last name of a path has the extension of settings files. -/
def HasExtension (path : String) : Prop :=
  Files.extension? ((Files.components path).getLast?.getD "") = some fileExtension

instance (path : String) : Decidable (HasExtension path) := inferInstanceAs (Decidable (_ = _))

theorem hasExtension_localFiles : ∀ name ∈ localFiles, HasExtension name := by decide

section

variable {sources : Sources} {s : Settings} {path name found : String} {t' : Tree}

/-- A file with an extension is found under its own name. -/
theorem findFile_of_isFile {t : Tree} (hfile : t.isFile name) (hext : HasExtension name) :
    findFile t name = some name := by
  rw [findFile, if_pos hfile]
  exact if_pos hext

/-- A file that is found after writing and was there before was found before. -/
theorem findFile_of_write {t : Tree} {text : String} (hwrite : t.write path text = .ok t')
    (hext : HasExtension name) (hfound : findFile t' name = some found) (hfile : t.isFile found) :
    findFile t name = some found := by
  by_cases hnow : t'.isFile name
  · rw [findFile_of_isFile hnow hext] at hfound
    cases hfound
    exact findFile_of_isFile hfile hext
  · have hbefore : ¬ t.isFile name := fun h => hnow (Tree.isFile_of_write hwrite h)
    rw [findFile, if_neg hnow, Option.filter_eq_some_iff] at hfound
    rw [findFile, if_neg hbefore, Option.filter_eq_some_iff]
    exact ⟨hfound.1, hfile⟩

theorem isFile_of_find? {t : Tree} {content : ByteArray} (h : t.find? name = some (.file content)) :
    t.isFile name := by
  simp [Tree.isFile, h, Files.Node.isDirectory]

/-- The layer of a file that would be read besides: nothing, or the settings
once more. -/
theorem fileLayer_of_found (hlayer : ∀ content,
      (findFile t' name).bind t'.find? = some (.file content) → content = s.fileText.toUTF8) :
    fileLayer t' false name = some [] ∨
      fileLayer t' false name = some (s.layer s.builtins.extra.entries) := by
  rw [fileLayer]
  split
  · next content hcontent =>
      rw [hlayer content hcontent, ofContent?_fileText]
      exact .inr rfl
  · exact .inl rfl

/-- A local file is missing, or it is the one that was saved. -/
theorem fileLayer_local (honly : sources.Only path) (hsave : s.save sources.tree path = .ok t')
    (hname : name ∈ localFiles) :
    fileLayer t' false name = some [] ∨
      fileLayer t' false name = some (s.layer s.builtins.extra.entries) := by
  refine fileLayer_of_found fun content hcontent => ?_
  obtain ⟨found, hfound, hfind⟩ := Option.bind_eq_some_iff.mp hcontent
  rcases Tree.find?_of_write_or hsave hfind with hnew | ⟨hold, hother⟩
  · exact Files.Node.file.inj hnew
  · have hbefore := findFile_of_write hsave (hasExtension_localFiles name hname) hfound
      (isFile_of_find? hold)
    exact absurd (honly.files name hname found hbefore) hother

/-- The user's own file is one that is there. -/
theorem mem_userFile_iff {directory : String} (h : sources.userDirectory = some directory) :
    name ∈ sources.userFile ↔
      name = Files.join (Files.join directory "xsd-registry") fileName ∧
        (sources.tree.find? name).isSome := by
  rw [Sources.userFile, h]
  dsimp only
  split
  · next hsome =>
      rw [List.mem_singleton]
      exact ⟨fun he => ⟨he, he ▸ hsome⟩, And.left⟩
  · next hnone =>
      simp only [List.not_mem_nil, false_iff, not_and]
      rintro rfl
      exact hnone

/-- The file of the user is missing, or it is the one that was saved. -/
theorem fileLayer_user (honly : sources.Only path) (hsave : s.save sources.tree path = .ok t')
    (hname : name ∈ ({ sources with tree := t' } : Sources).userFile) :
    fileLayer t' false name = some [] ∨
      fileLayer t' false name = some (s.layer s.builtins.extra.entries) := by
  cases hdirectory : sources.userDirectory with
  | none => simp [Sources.userFile, hdirectory] at hname
  | some directory =>
      obtain ⟨hpath, hsome⟩ := (mem_userFile_iff (by exact hdirectory)).mp hname
      obtain ⟨node, hnode⟩ := Option.isSome_iff_exists.mp hsome
      -- What is there now was not there before, unless it is the file that was written.
      have hnew : t'.find? name = some (.file s.fileText.toUTF8) := by
        rcases Tree.find?_of_write_or hsave hnode with rfl | ⟨hold, hother⟩
        · exact hnode
        · have hbefore : name ∈ sources.userFile :=
            (mem_userFile_iff hdirectory).mpr ⟨hpath, by rw [hold]; rfl⟩
          exact absurd (honly.user name hbefore) hother
      refine fileLayer_of_found fun content hcontent => ?_
      obtain ⟨found, hfound, hfind⟩ := Option.bind_eq_some_iff.mp hcontent
      rw [findFile, if_pos (isFile_of_find? hnew)] at hfound
      split at hfound
      · cases hfound
        rw [hnew] at hfind
        exact (Files.Node.file.inj (Option.some.inj hfind)).symm
      · cases hfound

/-- The layer of the file that was written. -/
theorem fileLayer_saved (hext : HasExtension path) (hsave : s.save sources.tree path = .ok t') :
    fileLayer t' true path = some (s.layer s.builtins.extra.entries) := by
  have hnew := Tree.find?_of_write hsave
  rw [fileLayer, findFile_of_isFile (isFile_of_find? hnew) hext, Option.bind_some, hnew]
  exact ofContent?_fileText s

/-- Layers that are each empty or one and the same can all be read. -/
theorem exists_mapM {α : Type} {f : String → Option (List α)} {l : List α} {names : List String}
    (h : ∀ name ∈ names, f name = some [] ∨ f name = some l) :
    ∃ ls, names.mapM f = some ls ∧ ∀ l' ∈ ls, l' = [] ∨ l' = l := by
  induction names with
  | nil => exact ⟨[], rfl, by simp⟩
  | cons name names ih =>
      obtain ⟨ls, hls, hall⟩ := ih fun n hn => h n (List.mem_cons_of_mem _ hn)
      rcases h name List.mem_cons_self with hname | hname
      · exact ⟨[] :: ls, by simp [hname, hls], by simpa using hall⟩
      · exact ⟨l :: ls, by simp [hname, hls], by simpa using hall⟩

/-- All layers behind a save: the settings that were saved, once or more, and
nothing else. -/
theorem layers_of_save (honly : sources.Only path) (hext : HasExtension path)
    (hsave : s.save sources.tree path = .ok t') :
    ∃ ls, ({ sources with tree := t' } : Sources).layers (some path) = some ls ∧
      (∀ l ∈ ls, l = [] ∨ l = s.layer s.builtins.extra.entries) ∧
      s.layer s.builtins.extra.entries ∈ ls := by
  have hoptional : ∀ name ∈ localFiles ++ ({ sources with tree := t' } : Sources).userFile,
      fileLayer t' false name = some [] ∨
        fileLayer t' false name = some (s.layer s.builtins.extra.entries) := by
    intro name hname
    rcases List.mem_append.mp hname with hname | hname
    · exact fileLayer_local honly hsave hname
    · exact fileLayer_user honly hsave hname
  obtain ⟨ls, hls, hall⟩ := exists_mapM hoptional
  have henvironment : environmentLayer sources.environment = [] := by
    rw [environmentLayer, List.filterMap_eq_nil_iff]
    intro v hv
    rw [honly.environment v hv, Option.map_none]
  refine ⟨ls ++ [s.layer s.builtins.extra.entries] ++ [[]], ?_, ?_, by simp⟩
  · simp [Sources.layers, hls, fileLayer_saved hext hsave, henvironment]
  · simpa [or_imp, forall_and] using hall

end

/-! ## Small settings -/

/-- The settings with one name that is built in besides the usual ones. -/
def ofName (space name : String) : Settings :=
  { builtins := { extra := .ofList [(space, [name])] } }

/-- Where there is nothing at all, there are no other settings. -/
theorem only_of_empty (path : String) : ({ tree := {} } : Sources).Only path where
  files := by
    have hnone : ∀ name ∈ localFiles, findFile {} name = none := by
      simp only [localFiles, List.forall_mem_cons, List.not_mem_nil, false_implies, implies_true]
      exact ⟨rfl, rfl, rfl, trivial⟩
    intro name hname found hfound
    rw [hnone name hname] at hfound
    contradiction
  user := by simp [Sources.userFile]
  environment := by simp

/-- A file in the working directory can be written. -/
theorem save_empty (s : Settings) :
    s.save {} "c.toml" = .ok (Tree.put {} ["c.toml"] (.file s.fileText.toUTF8)) := by
  have hplace : Tree.writable {} "c.toml" = .ok ["c.toml"] := rfl
  rw [save, Tree.write, hplace]
  rfl

/-! ## Saving and loading -/

section

variable {sources : Sources} {s : Settings} {path : String} {t' : Tree}

/-- What is loaded behind a save differs from what was saved in the extra names
only, and these are the saved ones with their namespaces in lower case. -/
theorem exists_load_of_save (honly : sources.Only path) (hext : HasExtension path)
    (hsave : s.save sources.tree path = .ok t') :
    ∃ extra : Table String (List String),
      load { sources with tree := t' } (some path) =
        .ok { s with builtins := { s.builtins with extra } } ∧
      ∀ space, extra.get? space = lastOf space s.builtins.extra.entries := by
  obtain ⟨ls, hls, hall, hmem⟩ := layers_of_save honly hext hsave
  obtain ⟨t, ht, hlayers⟩ := Raw.layers_layer hall hmem
  refine ⟨.ofList t, ?_, fun space => ?_⟩
  · rw [load, hls, Option.bind_some, hlayers, ofRaw?_layer]
  · rw [get?_ofList ht.nodup, ht.find]

/-- **What is saved is loaded again, with the namespaces of the extra names in
lower case.**  Each namespace that is loaded has the names of one that was
saved, and none that was saved is lost; where two differ in case only, the one
that is left has the names of one of them.  So the settings come back as they
were if and only if all namespaces are in lower case. -/
theorem load_of_save (honly : sources.Only path) (hext : HasExtension path)
    (hsave : s.save sources.tree path = .ok t') :
    ∃ s', load { sources with tree := t' } (some path) = .ok s' ∧
      s'.builtins.includeXsd = s.builtins.includeXsd ∧ s'.merge = s.merge ∧
      s'.resolve = s.resolve ∧ s'.loader = s.loader ∧ s'.output = s.output ∧
      (∀ space names, s'.builtins.extra.get? space = some names →
        ∃ origin, Text.lower origin = space ∧ s.builtins.extra.get? origin = some names) ∧
      (∀ space ∈ s.builtins.extra.keys, s'.builtins.extra.contains (Text.lower space)) ∧
      (s' = s ↔ ∀ space ∈ s.builtins.extra.keys, Text.lower space = space) := by
  obtain ⟨extra, hload, hget⟩ := exists_load_of_save honly hext hsave
  have horigin (space : String) (names : List String) (h : extra.get? space = some names) :
      ∃ origin, Text.lower origin = space ∧ s.builtins.extra.get? origin = some names := by
    rw [hget] at h
    obtain ⟨origin, hlower, hmem⟩ := exists_of_lastOf h
    exact ⟨origin, hlower, (Table.mem_entries_iff _).mp hmem⟩
  have hkept (space : String) (h : space ∈ s.builtins.extra.keys) :
      extra.contains (Text.lower space) := by
    obtain ⟨⟨_, names⟩, hmem, rfl⟩ := List.mem_map.mp h
    rw [Table.contains, hget]
    exact isSome_lastOf hmem
  refine ⟨_, hload, rfl, rfl, rfl, rfl, rfl, horigin, hkept, fun h space hspace => ?_, fun h => ?_⟩
  · have hsame : extra = s.builtins.extra := congrArg (·.builtins.extra) h
    obtain ⟨⟨_, names⟩, hmem, rfl⟩ := List.mem_map.mp hspace
    obtain ⟨origin, hlower, -⟩ :=
      horigin _ names (by rw [hsame]; exact (Table.mem_entries_iff _).mp hmem)
    rw [← hlower, Text.lower_lower]
  · have hsame : extra = s.builtins.extra := by
      refine Table.ext_get? fun space => ?_
      rw [hget, Lowered.lastOf_eq s.builtins.extra.nodup_keys h, find?_entries]
    rw [hsame]

end

/-- A namespace in lower case. -/
theorem load_of_save_lowercase :
    ∃ t', (ofName "urn:enc" "Array").save {} "c.toml" = .ok t' ∧
      load { tree := t' } (some "c.toml") = .ok (ofName "urn:enc" "Array") := by
  refine ⟨_, save_empty _, ?_⟩
  obtain ⟨s', hload, -, -, -, -, -, -, -, hsame⟩ :=
    load_of_save (only_of_empty "c.toml") (by decide) (save_empty (ofName "urn:enc" "Array"))
  have hlower : ∀ space ∈ (ofName "urn:enc" "Array").builtins.extra.keys,
      Text.lower space = space := by
    intro space hspace
    obtain rfl : space = "urn:enc" := List.mem_singleton.mp hspace
    exact Text.lower_of_ascii (by simp)
  rw [hload, hsame.mpr hlower]

/-- A namespace with a capital letter: the name that was built in is so no
longer. -/
theorem load_of_save_capital :
    ∃ t', (ofName "urn:Enc" "Array").save {} "c.toml" = .ok t' ∧
      (ofName "urn:Enc" "Array").builtinNames.contains "urn:Enc" "Array" ∧
      ∃ s', load { tree := t' } (some "c.toml") = .ok s' ∧ s' ≠ ofName "urn:Enc" "Array" ∧
        s'.builtinNames.contains "urn:Enc" "Array" = false := by
  refine ⟨_, save_empty _, rfl, ?_⟩
  obtain ⟨extra, hload, hget⟩ := exists_load_of_save (only_of_empty "c.toml") (by decide)
    (save_empty (ofName "urn:Enc" "Array"))
  have hextra : extra = .ofList [("urn:enc", ["Array"])] := by
    have hlower : Text.lower "urn:Enc" = "urn:enc" := by decide
    refine Table.ext_get? fun space => ?_
    have hsaved : lastOf space (ofName "urn:Enc" "Array").builtins.extra.entries =
        if Text.lower "urn:Enc" = space then some ["Array"] else none := rfl
    rw [hget, hsaved, hlower, get?_ofList (by simp), find?_cons, find?_nil]
    simp only [eq_comm]
  subst hextra
  exact ⟨ofName "urn:enc" "Array", hload, by decide, rfl⟩

end SchemaCatalog.Settings
