import SchemaCatalog.Proofs.Settings.Paths

/-!
# SchemaCatalog.Proofs.Settings.Keys

Settings one by one (`Key`): where each one stands in a layer, what it is in
settings as a whole, and what it is if nobody sets it.

A layer that has nothing but settings of the right kind (`TypedAt`) has tables
just where the sections are (`TypedAt.shaped`), so layers of this kind can be
laid over one another setting by setting (`at?_layers`).
-/

namespace SchemaCatalog.Settings

open Toml (find? find?_cons isSome_find?_iff)

/-- What can be set by itself. -/
inductive Key
  | includeXsd
  /-- The extra names of a namespace. -/
  | names (space : String)
  | dedup
  | strict
  | extension
  | skip
  | format
  deriving DecidableEq

/-- What something is set to. -/
inductive Setting
  | flag (b : Bool)
  | text (s : String)
  | texts (ss : List String)
  | format (f : Format)
  deriving DecidableEq

/-- What a key is set to in settings as a whole. -/
def value (s : Settings) : Key → Option Setting
  | .includeXsd => some (.flag s.builtins.includeXsd)
  | .names space => (s.builtins.extra.get? space).map .texts
  | .dedup => some (.flag s.merge.dedup)
  | .strict => some (.flag s.resolve.strict)
  | .extension => some (.text s.loader.extension)
  | .skip => some (.texts s.loader.skip)
  | .format => some (.format s.output.format)

def sectionPaths : List (List String) :=
  [[], ["builtins"], ["builtins", "extra"], ["merge"], ["resolve"], ["loader"], ["output"]]

namespace Key

/-- Where a key stands in a layer. -/
def path : Key → List String
  | includeXsd => ["builtins", "include_xsd"]
  | names space => ["builtins", "extra", space]
  | dedup => ["merge", "dedup_external_references"]
  | strict => ["resolve", "strict"]
  | extension => ["loader", "extension"]
  | skip => ["loader", "skip_prefixes"]
  | format => ["output", "format"]

/-- What holds if no layer sets a key. -/
def default : Key → Option Setting
  | includeXsd | dedup | strict => some (.flag true)
  | names _ => none
  | extension => some (.text "json")
  | skip => some (.texts ["target/", ".git/"])
  | format => some (.format .pretty)

/-- The words that a key can be set to, in lower case, and what each of them
means. -/
def words : Key → List (String × Setting)
  | includeXsd | dedup | strict =>
    [("1", .flag true), ("true", .flag true), ("on", .flag true), ("yes", .flag true),
      ("0", .flag false), ("false", .flag false), ("off", .flag false), ("no", .flag false)]
  | format => [("pretty", .format .pretty), ("compact", .format .compact)]
  | names _ | extension | skip => []

end Key

/-- The text that a value is. -/
def Raw.ownText? : Raw → Option String
  | .text s => some s
  | _ => none

namespace Key

/-- What a key is set to by a value, if the value is of the right kind: a flag is
also set by an integer, which means true unless it is zero, and what has words
is set by these in either case. -/
def read : Key → Raw → Option Setting
  | includeXsd, .flag b | dedup, .flag b | strict, .flag b => some (.flag b)
  | includeXsd, .integer n | dedup, .integer n | strict, .integer n => some (.flag (n != 0))
  | extension, .text s => some (.text s)
  | names _, .list items | skip, .list items => (items.mapM Raw.ownText?).map .texts
  | key, .text word => key.words.lookup (Text.lower word)
  | _, _ => none

/-- The key is written in lower case. -/
def Lower : Key → Prop
  | names space => Text.lower space = space
  | _ => True

/-- What nobody sets is as in new settings. -/
theorem value_new (key : Key) : ({} : Settings).value key = key.default := by
  cases key <;> rfl

/-- No two keys share a path. -/
theorem path_injective {key key' : Key} (h : key.path = key'.path) : key = key' := by
  cases key <;> cases key' <;> simp_all [path]

/-- No key is a section. -/
theorem path_not_mem (key : Key) : key.path ∉ sectionPaths := by
  cases key <;> simp [path, sectionPaths]

theorem path_ne_singleton (key : Key) (k : String) : key.path ≠ [k] := by
  cases key <;> simp [path]

/-- The path of a key that is read in lower case is in lower case. -/
theorem lower_of_mem_path {key : Key} (hlower : key.Lower) {k : String} (hk : k ∈ key.path) :
    Text.lower k = k := by
  cases key with
  | names space =>
      rcases List.mem_cons.mp hk with rfl | hk
      · exact Raw.lower_known _ (by decide)
      · rcases List.mem_cons.mp hk with rfl | hk
        · exact Raw.lower_known _ (by decide)
        · exact List.mem_singleton.mp hk ▸ hlower
  | _ =>
      refine Raw.lower_known k ?_
      revert k
      decide

/-- A table sets nothing by itself. -/
theorem not_isTable_of_read {key : Key} {v : Raw} (h : (key.read v).isSome) : ¬ v.IsTable := by
  rintro ⟨es, rfl⟩
  cases key <;> contradiction

end Key

/-- What something is set to, as it stands in a layer. -/
def Setting.raw : Setting → Raw
  | flag b => .flag b
  | text s => .text s
  | texts ss => .list (ss.map .text)
  | format f => .text f.name

/-- What is of the right type for a key. -/
def Key.Accepts : Key → Setting → Prop
  | includeXsd, .flag _ | dedup, .flag _ | strict, .flag _ => True
  | names _, .texts _ | skip, .texts _ => True
  | extension, .text _ => True
  | format, .format _ => True
  | _, _ => False

/-- Texts are read as texts. -/
theorem Raw.mapM_ownText? (ss : List String) : (ss.map Raw.text).mapM ownText? = some ss := by
  induction ss with
  | nil => rfl
  | cons s ss ih =>
      rw [List.map_cons, List.mapM_cons, ih]
      rfl

/-- Items that are texts are read as these. -/
theorem Raw.mapM_text?_of_own {items : List Raw} {ss : List String}
    (h : items.mapM ownText? = some ss) : items.mapM text? = some ss := by
  induction items generalizing ss with
  | nil => exact h
  | cons item items ih =>
      rw [List.mapM_cons] at h
      obtain ⟨s, hs, h⟩ := Option.bind_eq_some_iff.mp h
      obtain ⟨more, hmore, h⟩ := Option.bind_eq_some_iff.mp h
      cases item with
      | text t =>
          obtain rfl := Option.some.inj hs
          rw [List.mapM_cons, ih hmore]
          exact h
      | _ => contradiction

/-- A value of the right type sets its key to what it is. -/
theorem Key.read_raw {key : Key} {x : Setting} (h : key.Accepts x) : key.read x.raw = some x := by
  cases x with
  | flag b => cases key <;> first | contradiction | rfl
  | text s => cases key <;> first | contradiction | rfl
  | texts ss =>
      cases key <;>
        first | contradiction | rw [Setting.raw, read, Raw.mapM_ownText?, Option.map_some]
  | format f =>
      have hread : format.words.lookup (Text.lower f.name) = some (.format f) := by
        cases f <;> decide +kernel
      cases key <;> first | contradiction | exact hread

/-! ## Layers of the right kind -/

/-- What may stand at a place of a layer: a section, or a value that its key can
be set to. -/
inductive Allowed : List String → Raw → Prop
  | table {place : List String} (es : List (String × Raw)) (hplace : place ∈ sectionPaths) :
    Allowed place (.table es)
  | setting (key : Key) {v : Raw} (hlower : key.Lower) (hread : (key.read v).isSome) :
    Allowed key.path v

/-- All that a value at a place has in it is allowed. -/
def TypedAt (place : List String) (v : Raw) : Prop :=
  ∀ path w, v.at? path = some w → Allowed (place ++ path) w

namespace Allowed

variable {place : List String} {v : Raw} {key : Key} {k : String}

/-- At the place of a key stands something that the key can be set to. -/
theorem isSome_read (h : Allowed key.path v) : (key.read v).isSome := by
  generalize hplace : key.path = place at h
  cases h with
  | table es hmem => exact absurd (hplace ▸ hmem) key.path_not_mem
  | setting key' _ hread => exact Key.path_injective hplace ▸ hread

/-- There are tables where the sections are. -/
theorem isTable_iff (h : Allowed place v) : v.IsTable ↔ place ∈ sectionPaths := by
  cases h with
  | table es hmem => exact iff_of_true ⟨es, rfl⟩ hmem
  | setting key _ hread => exact iff_of_false (Key.not_isTable_of_read hread) key.path_not_mem

/-- The keys of a place that is allowed are in lower case. -/
theorem lower (h : Allowed place v) (hk : k ∈ place) : Text.lower k = k := by
  cases h with
  | table es hmem =>
      refine Raw.lower_known k ?_
      revert k
      revert place
      decide
  | setting key hlower _ => exact Key.lower_of_mem_path hlower hk

/-- The keys of a layer's own table are the names of sections. -/
theorem known (h : Allowed [k] v) : k ∈ Raw.knownKeys := by
  generalize hplace : [k] = place at h
  cases h with
  | table es hmem =>
      have hall : ∀ place ∈ sectionPaths, ∀ k ∈ place, k ∈ Raw.knownKeys := by decide
      exact hall _ hmem k (hplace ▸ List.mem_singleton_self k)
  | setting key _ _ => exact absurd hplace.symm (key.path_ne_singleton k)

end Allowed

namespace TypedAt

variable {place : List String} {v : Raw} {es : List (String × Raw)}

/-- A section without entries. -/
theorem nil (hplace : place ∈ sectionPaths) : TypedAt place (.table []) := by
  intro path w hw
  cases path with
  | nil =>
      obtain rfl := Option.some.inj hw
      rw [List.append_nil]
      exact .table [] hplace
  | cons key path => contradiction

/-- A section with one more entry that is allowed where it is. -/
theorem cons {key : String} (hv : TypedAt (place ++ [key]) v) (hes : TypedAt place (.table es)) :
    TypedAt place (.table ((key, v) :: es)) := by
  intro path w hw
  cases path with
  | nil =>
      have hplace := (hes [] _ rfl).isTable_iff.mp ⟨es, rfl⟩
      obtain rfl := Option.some.inj hw
      exact .table _ hplace
  | cons k path =>
      rw [Raw.at?_cons, find?_cons] at hw
      split at hw
      · next hk =>
        have hallowed := hv path w hw
        rwa [← hk, List.append_assoc, List.singleton_append] at hallowed
      · exact hes (k :: path) w hw

/-- A value that its key can be set to. -/
theorem setting (key : Key) (hlower : key.Lower) (hread : (key.read v).isSome) :
    TypedAt key.path v := by
  intro path w hw
  cases path with
  | nil =>
      obtain rfl := Option.some.inj hw
      rw [List.append_nil]
      exact .setting key hlower hread
  | cons k path =>
      rw [Raw.at?_eq_none (Key.not_isTable_of_read hread)] at hw
      contradiction

/-- A layer of the right kind has tables where the sections are. -/
theorem shaped (h : TypedAt [] v) (hdistinct : v.Distinct) :
    Raw.Shaped (· ∈ sectionPaths) v := by
  intro path w hw
  refine ⟨(h path w hw).isTable_iff, hdistinct path w hw, fun k hk => ?_⟩
  obtain ⟨x, hx⟩ := Option.isSome_iff_exists.mp (isSome_find?_iff.mpr hk)
  have hat : v.at? (path ++ [k]) = some x := by
    rw [Raw.at?_append, hw, Option.bind_some, Raw.at?, hx, Option.bind_some, Raw.at?_nil]
  have hallowed : Allowed (path ++ [k]) x := h _ x hat
  exact hallowed.lower (List.mem_append_right _ (List.mem_singleton_self k))

/-- A typed layer has the keys of sections only. -/
theorem known (h : TypedAt [] v) {k : String} (hk : k ∈ v.entries.map (·.1)) :
    k ∈ Raw.knownKeys := by
  obtain ⟨x, hx⟩ := Option.isSome_iff_exists.mp (isSome_find?_iff.mpr hk)
  have hat : v.at? [k] = some x := by rw [Raw.at?, hx, Option.bind_some, Raw.at?_nil]
  exact (h [k] x hat).known

/-- A value with the sections of a layer, and otherwise nothing but what is
allowed. -/
theorem of_shaped (h : Raw.Shaped (· ∈ sectionPaths) v)
    (hallowed : ∀ path w, path ∉ sectionPaths → v.at? path = some w → Allowed path w) :
    TypedAt [] v := by
  intro path w hw
  rw [List.nil_append]
  by_cases hpath : path ∈ sectionPaths
  · obtain ⟨es, rfl⟩ := (h path w hw).table_iff.mpr hpath
    exact .table es hpath
  · exact hallowed path w hpath hw

end TypedAt

/-! ## Laying -/

namespace Raw

/-- Layers of known keys are laid on one key after the other. -/
theorem lay_known {l : List (String × Raw)} (h : ∀ k ∈ l.map (·.1), k ∈ knownKeys) (root : Raw) :
    lay root l = mergeAll l root := by
  induction l generalizing root with
  | nil => rfl
  | cons e l ih =>
      obtain ⟨hkey, hl⟩ := List.forall_mem_cons.mp h
      rw [lay, List.foldl_cons, setEntry_known hkey]
      exact ih hl _

/-- **Layers setting by setting.**  If layers come to the same as certain parts
that are laid one after the other, and all these are of the right kind, then so
is what comes of them, and each key has there what the last part has that has
anything for it. -/
theorem at?_layers {ls parts : List (List (String × Raw))}
    (hfold : ls.foldl lay (table []) = parts.foldl (fun root l => mergeAll l root) (table []))
    (hparts : ∀ l ∈ parts, TypedAt [] (table l) ∧ (table l).Distinct) :
    TypedAt [] (layers ls) ∧ (layers ls).Distinct ∧ ∀ key : Key, (layers ls).at? key.path =
      (parts.filterMap fun l => (table l).at? key.path).getLast? := by
  have hroot : [] ∈ sectionPaths := by decide
  have hshapes : ∀ l ∈ parts, Shaped (· ∈ sectionPaths) (table l) := fun l hl =>
    (hparts l hl).1.shaped (hparts l hl).2
  have hnothing : ∀ path ∉ sectionPaths, (table []).at? path = none := by
    intro path hpath
    cases path with
    | nil => exact absurd hroot hpath
    | cons key path => rfl
  obtain ⟨hshaped, hat⟩ := laid_foldl hshapes (.empty hroot)
  rw [← hfold] at hshaped hat
  -- What comes of the first pass has nothing that none of the parts has.
  have htyped : TypedAt [] (ls.foldl lay (table [])) := by
    refine .of_shaped hshaped fun path w hpath hw => ?_
    rw [hat path hpath, hnothing path hpath, Option.or_none] at hw
    obtain ⟨l, hl, hlw⟩ := List.mem_filterMap.mp (List.mem_of_getLast? hw)
    exact (hparts l hl).1 path w hlw
  obtain ⟨es, hes⟩ := hshaped.fits.table_iff.mpr hroot
  have hlayers : layers ls = mergeAll es (table []) := by
    rw [layers, lay_known (fun k hk => htyped.known hk), hes, entries]
  rw [hes] at htyped hshaped hat
  have hlaid := laid_mergeAll es hshaped (.empty hroot)
  rw [← hlayers] at hlaid
  have hsame : ∀ path ∉ sectionPaths, (layers ls).at? path = (table es).at? path := by
    intro path hpath
    rw [hlaid.at?_eq path hpath, hnothing path hpath, Option.or_none]
  refine ⟨.of_shaped hlaid.shaped fun path w hpath hw => ?_, fun path w hw => ?_, fun key => ?_⟩
  · rw [hsame path hpath] at hw
    exact htyped path w hw
  · exact (hlaid.shaped path w hw).distinct
  · rw [hsame _ key.path_not_mem, hat _ key.path_not_mem, hnothing _ key.path_not_mem,
      Option.or_none]

end Raw

end SchemaCatalog.Settings
