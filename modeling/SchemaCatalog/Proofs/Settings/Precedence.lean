import SchemaCatalog.Proofs.Settings.Environment
import SchemaCatalog.Proofs.Settings.Reading
import SchemaCatalog.Proofs.Settings.RoundTrip
import SchemaCatalog.Proofs.Toml.Distinct

/-!
# SchemaCatalog.Proofs.Settings.Precedence

Where the value of a setting comes from when settings are loaded: from the last
of the files and variables that says anything about it, and if none does, from
its default (`load_layered`).  What is said about one key of a section never
takes anything from the other keys of that section.
-/

namespace SchemaCatalog.Settings

open Toml (find?)

namespace Raw

/-! ## Keys of files -/

/-- The entries of a file are turned into values one by one. -/
theorem map_ofTomlEntries (es : List (String × Toml.Value)) :
    ofTomlEntries es = es.map fun e => (e.1, ofToml e.2) := by
  induction es with
  | nil => rfl
  | cons e es ih => rw [ofTomlEntries, ih, List.map_cons]

/-- The value of a key is the value of its entry. -/
theorem find?_ofTomlEntries (es : List (String × Toml.Value)) (key : String) :
    find? (ofTomlEntries es) key = (find? es key).map ofToml := by
  induction es with
  | nil => rfl
  | cons e es ih =>
      rw [ofTomlEntries, Toml.find?_cons, Toml.find?_cons, ih]
      split <;> rfl

/-- A file that repeats no key gives a table that repeats none. -/
theorem distinct_ofToml {v : Toml.Value} (h : v.Distinct) : (ofToml v).Distinct := by
  intro path w hw
  induction path generalizing v with
  | nil =>
      obtain rfl := Option.some.inj hw
      cases h with
      | table nodup _ =>
          rw [ofToml, entries, map_ofTomlEntries, List.map_map]
          exact nodup
      | _ => exact List.nodup_nil
  | cons key path ih =>
      cases h with
      | table nodup values =>
          rw [ofToml, at?_cons, find?_ofTomlEntries] at hw
          obtain ⟨x, hx, hw⟩ := Option.bind_eq_some_iff.mp hw
          obtain ⟨v, hv, rfl⟩ := Option.map_eq_some_iff.mp hx
          exact ih (Toml.Distinct.of_find? ⟨nodup, values⟩ hv) hw
      | _ => contradiction

end Raw

theorem distinct_nil : (Raw.table []).Distinct := by
  intro path w hw
  cases path with
  | nil =>
      obtain rfl := Option.some.inj hw
      exact List.nodup_nil
  | cons key path => contradiction

/-- No key comes twice in the layer of a file. -/
theorem distinct_of_fileLayer {t : Files.Tree} {needed : Bool} {path : String}
    {l : List (String × Raw)} (h : fileLayer t needed path = some l) : (Raw.table l).Distinct := by
  rw [fileLayer] at h
  split at h
  · obtain ⟨es, hes, rfl⟩ := Option.map_eq_some_iff.mp h
    exact Raw.distinct_ofToml (Toml.distinct_of_read hes).table
  · split at h
    · contradiction
    · obtain rfl := Option.some.inj h
      exact distinct_nil

/-! ## Sources -/

/-- A settings file is of the right kind: it can be read, and has nothing but
sections and keys that are set to what they can be set to.  If it is not needed,
it may also be missing. -/
def Sources.TypedFile (s : Sources) (needed : Bool) (path : String) : Prop :=
  ∃ l, fileLayer s.tree needed path = some l ∧ TypedAt [] (.table l)

/-- What a settings file says about a key. -/
def Sources.fileSays (s : Sources) (needed : Bool) (key : Key) (path : String) : Option Setting :=
  (fileLayer s.tree needed path).bind fun l => ((Raw.table l).at? key.path).bind key.read

/-- Of an optional value at most one thing is found. -/
theorem getLast?_filterMap_toList {α β : Type} (f : α → Option β) (o : Option α) :
    (o.toList.filterMap f).getLast? = o.bind f := by
  cases o with
  | none => rfl
  | some a => exact Raw.getLast?_filterMap_cons f a []

/-- There is one user file at most. -/
theorem Sources.userFile_eq (s : Sources) : s.userFile = s.userFile.head?.toList := by
  rw [userFile]
  split
  · rfl
  · dsimp only
    split <;> rfl

/-- Of the user file at most one value is found. -/
theorem Sources.getLast?_filterMap_userFile {α : Type} (s : Sources) (f : String → Option α) :
    (s.userFile.filterMap f).getLast? = s.userFile.head?.bind f := by
  have hlast := getLast?_filterMap_toList f s.userFile.head?
  rwa [← userFile_eq] at hlast

section

variable {s : Sources} {needed : Bool} {paths : List String}

/-- The layers of files. -/
theorem exists_file_layers (h : ∀ path ∈ paths, s.TypedFile needed path) :
    ∃ ls, paths.mapM (fileLayer s.tree needed) = some ls ∧
      (∀ l ∈ ls, TypedAt [] (.table l) ∧ (Raw.table l).Distinct) ∧
      ∀ key : Key, ls.filterMap (fun l => ((Raw.table l).at? key.path).bind key.read) =
        paths.filterMap (s.fileSays needed key) := by
  induction paths with
  | nil => exact ⟨[], rfl, by simp, fun _ => rfl⟩
  | cons path paths ih =>
      obtain ⟨⟨l, hl, htyped⟩, hpaths⟩ := List.forall_mem_cons.mp h
      obtain ⟨ls, hls, htypeds, hgiven⟩ := ih hpaths
      refine ⟨l :: ls, ?_, ?_, fun key => ?_⟩
      · rw [List.mapM_cons, hl, hls]
        rfl
      · exact List.forall_mem_cons.mpr ⟨⟨htyped, distinct_of_fileLayer hl⟩, htypeds⟩
      · rw [List.filterMap_cons, List.filterMap_cons, hgiven key, Sources.fileSays, hl,
          Option.bind_some]

/-- In layers that lie over one another, what is read for a key from the last one
that has anything for it is the last that is read for it. -/
theorem getLast?_bind_read {ls : List (List (String × Raw))}
    (h : ∀ l ∈ ls, TypedAt [] (.table l)) (key : Key) :
    (ls.filterMap fun l => (Raw.table l).at? key.path).getLast?.bind key.read =
      (ls.filterMap fun l => ((Raw.table l).at? key.path).bind key.read).getLast? := by
  induction ls with
  | nil => rfl
  | cons l ls ih =>
      obtain ⟨hl, hls⟩ := List.forall_mem_cons.mp h
      rw [Raw.getLast?_filterMap_cons, Raw.getLast?_filterMap_cons, ← ih hls]
      cases hlast : (ls.filterMap fun l => (Raw.table l).at? key.path).getLast? with
      | none => rfl
      | some w =>
          obtain ⟨l', hl', hw⟩ := List.mem_filterMap.mp (List.mem_of_getLast? hlast)
          have hread := (hls l' hl').isSome_read key hw rfl
          rw [Option.some_or, Option.bind_some, Option.or_of_isSome hread]

/-- **Every setting has the value of the last layer that sets it, and its default
if none does.**  The layers are the files of the working directory, the user's
own file, a file that is named, and the environment.  If all that these say is
of the right kind, settings are loaded. -/
theorem load_layered (named : Option String)
    (hfiles : ∀ path ∈ localFiles ++ s.userFile, s.TypedFile false path)
    (hnamed : ∀ path ∈ named.toList, s.TypedFile true path)
    (henvironment : TypedEnvironment s.environment) :
    ∃ settings, load s named = .ok settings ∧ ∀ key : Key, settings.value key =
      (s.variableSays key).or ((named.bind (s.fileSays true key)).or
        ((s.userFile.head?.bind (s.fileSays false key)).or
          ((s.fileSays false key "config/xsd-registry.toml").or
            ((s.fileSays false key ".xsd-registry.toml").or
              ((s.fileSays false key "xsd-registry.toml").or key.default))))) := by
  obtain ⟨optional, hoptional, htypedOptional, hgivenOptional⟩ := exists_file_layers hfiles
  obtain ⟨needed, hneeded, htypedNeeded, hgivenNeeded⟩ := exists_file_layers hnamed
  obtain ⟨varLayers, hlay, htypedVariables, hgivenVariables⟩ := exists_variable_layers henvironment
  have htyped : ∀ l ∈ optional ++ needed ++ varLayers,
      TypedAt [] (.table l) ∧ (Raw.table l).Distinct := by
    intro l hl
    rcases List.mem_append.mp hl with hl | hl
    · exact (List.mem_append.mp hl).elim (htypedOptional l) (htypedNeeded l)
    · exact htypedVariables l hl
  have hlayers : s.layers named =
      some (optional ++ needed ++ [environmentLayer s.environment]) := by
    rw [Sources.layers, hoptional, hneeded]
    rfl
  have hlaid : (optional ++ needed).foldl Raw.lay (.table []) =
      (optional ++ needed).foldl (fun root l => Raw.mergeAll l root) (.table []) := by
    refine List.foldl_ext _ _ _ fun root l hl => Raw.lay_known (fun k hk => ?_) root
    exact (htyped l (List.mem_append_left _ hl)).1.known hk
  have hfold := calc
    (optional ++ needed ++ [environmentLayer s.environment]).foldl Raw.lay (.table [])
    _ = Raw.lay ((optional ++ needed).foldl Raw.lay (.table []))
          (environmentLayer s.environment) := List.foldl_append
    _ = varLayers.foldl (fun root l => Raw.mergeAll l root)
          ((optional ++ needed).foldl (fun root l => Raw.mergeAll l root) (.table [])) := by
        rw [hlay, hlaid]
    _ = (optional ++ needed ++ varLayers).foldl (fun root l => Raw.mergeAll l root) (.table []) :=
        List.foldl_append.symm
  obtain ⟨hresult, hdistinct, hat⟩ := Raw.at?_layers hfold htyped
  obtain ⟨settings, hsettings⟩ := Option.isSome_iff_exists.mp (isSome_ofRaw? hresult hdistinct)
  refine ⟨settings, by rw [load, hlayers, Option.bind_some, hsettings], fun key => ?_⟩
  rw [value_eq key hresult hdistinct hsettings, hat, getLast?_bind_read fun l hl => (htyped l hl).1,
    List.filterMap_append, List.filterMap_append, hgivenOptional, hgivenNeeded, hgivenVariables,
    List.getLast?_append, List.getLast?_append, getLast?_filterMap_toList, List.filterMap_append,
    List.getLast?_append, s.getLast?_filterMap_userFile]
  simp only [localFiles, Raw.getLast?_filterMap_cons, List.filterMap_nil, List.getLast?_nil,
    Option.none_or, Option.or_assoc]
  rfl

end

/-! ## All layers at once -/

/-- A settings file that is written is a layer of what it says. -/
theorem fileLayer_write {t : Files.Tree} {path : String} {section₀ : Toml.Section}
    {more : List Toml.Section} {l : List (String × Raw)}
    (hfind : t.find? path = some (.file (Toml.write (section₀ :: more)).toUTF8))
    (hext : HasExtension path) (hproper : ∀ s ∈ section₀ :: more, s.Proper)
    (hlines : (Toml.ofLines (Toml.linesOf (section₀ :: more))).map Raw.ofTomlEntries = some l)
    (needed : Bool) : fileLayer t needed path = some l := by
  rw [fileLayer, findFile_of_isFile (isFile_of_find? hfind) hext, Option.bind_some, hfind]
  exact (ofContent?_write hproper).trans hlines

/-- A settings file: its path, what it says, and the layer that this makes. -/
structure StackedFile where
  path : String
  sections : List Toml.Section
  layer : List (String × Raw)

/-- A file of the working directory. -/
def localFile : StackedFile where
  path := "xsd-registry.toml"
  sections :=
    [{ path := ["builtins", "extra"], entries := [("urn:a", .texts ["A"])] },
      { path := ["loader"], entries := [("extension", .text "xml"), ("skip_prefixes", .texts [])] },
      { path := ["resolve"], entries := [("strict", .flag false)] }]
  layer :=
    [("builtins", .table [("extra", .table [("urn:a", .list [.text "A"])])]),
      ("loader", .table [("extension", .text "xml"), ("skip_prefixes", .list [])]),
      ("resolve", .table [("strict", .flag false)])]

def ownFile : StackedFile where
  path := "user/xsd-registry/xsd-registry.toml"
  sections :=
    [{ path := ["builtins", "extra"], entries := [("urn:b", .texts ["B", "C"])] },
      { path := ["loader"], entries := [("extension", .text "js")] }]
  layer :=
    [("builtins", .table [("extra", .table [("urn:b", .list [.text "B", .text "C"])])]),
      ("loader", .table [("extension", .text "js")])]

def namedFile : StackedFile where
  path := "named.toml"
  sections :=
    [{ path := ["builtins"], entries := [("include_xsd", .flag false)] },
      { path := ["output"], entries := [("format", .text "compact")] }]
  layer :=
    [("builtins", .table [("include_xsd", .flag false)]),
      ("output", .table [("format", .text "compact")])]

def stackedFiles : List StackedFile := [localFile, ownFile, namedFile]

/-- These files, and variables besides. -/
def stacked : Sources where
  tree := stackedFiles.foldl (fun t f =>
    t.plant (Files.components f.path) (.file (Toml.write f.sections).toUTF8)) {}
  userDirectory := some "user"
  environment :=
    [("HOME", "user"), ("XSD_REGISTRY__RESOLVE__STRICT", "TRUE"),
      ("xsd_registry__merge.dedup_external_references", "Off"),
      ("XSD_REGISTRY__OUTPUT__FORMAT", "Pretty")]

theorem stacked_fileLayer (needed : Bool) :
    ∀ f ∈ stackedFiles, fileLayer stacked.tree needed f.path = some f.layer := by
  have hresolve : ∀ f ∈ stackedFiles,
      stacked.tree.resolve f.path = .ok (Files.components f.path) ∧ HasExtension f.path := by
    decide +kernel
  have hget : ∀ f ∈ stackedFiles,
      stacked.tree.get? (Files.components f.path) = some (.file (Toml.write f.sections).toUTF8) := by
    simp only [stackedFiles, List.forall_mem_cons, List.not_mem_nil, false_implies, implies_true]
    exact ⟨rfl, rfl, rfl, trivial⟩
  have hlines : ∀ f ∈ stackedFiles,
      (Toml.ofLines (Toml.linesOf f.sections)).map Raw.ofTomlEntries = some f.layer := by
    simp only [stackedFiles, List.forall_mem_cons, List.not_mem_nil, false_implies, implies_true]
    exact ⟨rfl, rfl, rfl, trivial⟩
  have hsections : ∀ f ∈ stackedFiles, f.sections ≠ [] ∧ ∀ s ∈ f.sections, s.Proper := by
    simp [stackedFiles, localFile, ownFile, namedFile, Toml.Section.Proper, Toml.maxKeyParts]
  intro f hf
  obtain ⟨hplace, hext⟩ := hresolve f hf
  obtain ⟨hne, hproper⟩ := hsections f hf
  have hlayer := hlines f hf
  have hfound : stacked.tree.find? f.path = some (.file (Toml.write f.sections).toUTF8) := by
    rw [Files.Tree.find?, hplace]
    exact hget f hf
  obtain ⟨section₀, more, heq⟩ := List.exists_cons_of_ne_nil hne
  rw [heq] at hfound hproper hlayer
  exact fileLayer_write hfound hext hproper hlayer needed

theorem stacked_typed : ∀ f ∈ stackedFiles, TypedAt [] (.table f.layer) := by
  have hplace : ∀ place ∈ sectionPaths, TypedAt place (.table []) := fun _ => .nil
  have hlower (space : String) (h : space = "urn:a" ∨ space = "urn:b") :
      Text.lower space = space := by
    rcases h with rfl | rfl <;> exact Text.lower_of_ascii (by simp)
  simp only [stackedFiles, List.forall_mem_cons, List.not_mem_nil, false_implies, implies_true]
  refine ⟨?_, ?_, ?_, trivial⟩
  · have hextra : TypedAt ["builtins", "extra"] (.table [("urn:a", .list [.text "A"])]) :=
      .cons (.setting (.names "urn:a") (hlower _ (.inl rfl)) rfl) (hplace _ (by decide))
    have hloader : TypedAt ["loader"]
        (.table [("extension", .text "xml"), ("skip_prefixes", .list [])]) :=
      .cons (.setting .extension trivial rfl)
        (.cons (.setting .skip trivial rfl) (hplace _ (by decide)))
    exact .cons (.cons hextra (hplace _ (by decide)))
      (.cons hloader (.cons (.cons (.setting .strict trivial rfl) (hplace _ (by decide)))
        (hplace _ (by decide))))
  · have hextra : TypedAt ["builtins", "extra"]
        (.table [("urn:b", .list [.text "B", .text "C"])]) :=
      .cons (.setting (.names "urn:b") (hlower _ (.inr rfl)) rfl) (hplace _ (by decide))
    exact .cons (.cons hextra (hplace _ (by decide)))
      (.cons (.cons (.setting .extension trivial rfl) (hplace _ (by decide)))
        (hplace _ (by decide)))
  · exact .cons (.cons (.setting .includeXsd trivial rfl) (hplace _ (by decide)))
      (.cons (.cons (.setting .format trivial (by decide +kernel)) (hplace _ (by decide)))
        (hplace _ (by decide)))

theorem stacked_environment : TypedEnvironment stacked.environment := by
  have hsaid : ∀ v ∈ stacked.environment, "xsd_registry__".toList <+: (Text.lower v.1).toList →
      (Key.strict.said v).isSome ∨ (Key.dedup.said v).isSome ∨ (Key.format.said v).isSome := by
    decide +kernel
  intro v hv hbegins
  rcases hsaid v hv hbegins with h | h | h
  · exact ⟨_, h⟩
  · exact ⟨_, h⟩
  · exact ⟨_, h⟩

/-- A file of the working directory, one of the user, a named one and variables:
each says something about sections that others say something else about. -/
theorem load_layered_stacked :
    ∃ settings, load stacked (some "named.toml") = .ok settings ∧
      [Key.includeXsd, .names "urn:a", .names "urn:b", .names "urn:c", .dedup, .strict, .extension,
        .skip, .format].map settings.value =
      [some (.flag false), some (.texts ["A"]), some (.texts ["B", "C"]), none, some (.flag false),
        some (.flag true), some (.text "js"), some (.texts []), some (.format .pretty)] := by
  have hmem : localFile ∈ stackedFiles ∧ ownFile ∈ stackedFiles ∧ namedFile ∈ stackedFiles := by
    simp [stackedFiles]
  have hfile (needed : Bool) (f : StackedFile) (hf : f ∈ stackedFiles) :
      stacked.TypedFile needed f.path :=
    ⟨_, stacked_fileLayer needed f hf, stacked_typed f hf⟩
  have huser : stacked.userFile = [ownFile.path] := by decide +kernel
  have habsent (path : String) (h : path = ".xsd-registry.toml" ∨ path = "config/xsd-registry.toml") :
      fileLayer stacked.tree false path = some [] := by
    have hnone : findFile stacked.tree path = none := by
      rcases h with rfl | rfl <;> decide +kernel
    rw [fileLayer, hnone]
    rfl
  have htyped (path : String) (h : path = ".xsd-registry.toml" ∨ path = "config/xsd-registry.toml") :
      stacked.TypedFile false path :=
    ⟨[], habsent path h, .nil (by decide)⟩
  have hlocal : ∀ path ∈ localFiles ++ stacked.userFile, stacked.TypedFile false path := by
    rw [huser]
    simp only [localFiles, List.cons_append, List.nil_append, List.forall_mem_cons, List.not_mem_nil,
      false_implies, implies_true, and_true]
    exact ⟨hfile false localFile hmem.1, htyped _ (.inl rfl), htyped _ (.inr rfl),
      hfile false ownFile hmem.2.1⟩
  have hnamed : ∀ path ∈ (some namedFile.path).toList, stacked.TypedFile true path :=
    List.forall_mem_singleton.mpr (hfile true namedFile hmem.2.2)
  obtain ⟨settings, hload, hvalue⟩ :=
    load_layered (some namedFile.path) hlocal hnamed stacked_environment
  refine ⟨settings, hload, ?_⟩
  have hgiven (needed : Bool) (key : Key) (f : StackedFile) (hf : f ∈ stackedFiles) :
      stacked.fileSays needed key f.path = ((Raw.table f.layer).at? key.path).bind key.read := by
    rw [Sources.fileSays, stacked_fileLayer needed f hf, Option.bind_some]
  have hplain (key : Key) : stacked.fileSays false key "xsd-registry.toml" = _ :=
    hgiven false key localFile hmem.1
  have hnothing (key : Key) (path : String)
      (h : path = ".xsd-registry.toml" ∨ path = "config/xsd-registry.toml") :
      stacked.fileSays false key path = none := by
    rw [Sources.fileSays, habsent path h]
    cases key <;> rfl
  simp only [huser, List.head?_cons, Option.bind_some, hplain, hgiven _ _ _ hmem.2.1,
    hgiven _ _ _ hmem.2.2, hnothing _ _ (.inl rfl), hnothing _ _ (.inr rfl)] at hvalue
  simp only [List.map_cons, List.map_nil, hvalue]
  decide +kernel

end SchemaCatalog.Settings
