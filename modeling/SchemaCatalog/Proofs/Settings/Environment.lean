import SchemaCatalog.Proofs.Settings.Keys
import SchemaCatalog.Proofs.Text.Lower
import SchemaCatalog.Settings.Load

/-!
# SchemaCatalog.Proofs.Settings.Environment

What the environment says about settings.  A variable sets a key if it has one of
the names of the key, in either case, and one of the words that the key can be
set to (`Key.said`).

When settings are loaded, a variable is read without knowing its key: a word is
taken for a flag or a number if it looks like one.  What the key is set to is
the same in the end (`read_variableValue`).  The keys of this layer are paths, so
it is no layer like the others, but each of its variables comes to the same as a
layer of its own (`exists_variable_layers`).
-/

namespace SchemaCatalog.Settings

/-! ## What variables say -/

/-- The names of the variables for a key, in lower case.  Flags and the format
have one, with two underscores or a dot in front of the key. -/
def Key.variableNames : Key → List String
  | includeXsd =>
    ["xsd_registry__builtins__include_xsd", "xsd_registry__builtins.include_xsd"]
  | dedup =>
    ["xsd_registry__merge__dedup_external_references",
      "xsd_registry__merge.dedup_external_references"]
  | strict => ["xsd_registry__resolve__strict", "xsd_registry__resolve.strict"]
  | format => ["xsd_registry__output__format", "xsd_registry__output.format"]
  | names _ | extension | skip => []

/-- What a variable, given with its text, says about a key. -/
def Key.said (key : Key) (v : String × String) : Option Setting :=
  if Text.lower v.1 ∈ key.variableNames then key.words.lookup (Text.lower v.2) else none

/-- What the last variable for a key says. -/
def Sources.variableSays (s : Sources) (key : Key) : Option Setting :=
  (s.environment.filterMap key.said).getLast?

/-- Every variable whose name begins as those for settings do says something
about a key. -/
def TypedEnvironment (environment : List (String × String)) : Prop :=
  ∀ v ∈ environment, "xsd_registry__".toList <+: (Text.lower v.1).toList →
    ∃ key : Key, (key.said v).isSome

/-! ## Names of variables -/

/-- The path under which a key stands in the layer of the environment. -/
def Key.dotted? : Key → Option String
  | includeXsd => some "builtins.include_xsd"
  | dedup => some "merge.dedup_external_references"
  | strict => some "resolve.strict"
  | format => some "output.format"
  | names _ | extension | skip => none

/-- The names of variables become paths. -/
theorem Key.dotted_variableNames (key : Key) : ∀ n ∈ key.variableNames, key.dotted?.isSome ∧
    variableStart.isPrefixOf n.toList ∧
    some (String.ofList (dotted (n.toList.drop variableStart.length))) = key.dotted? := by
  cases key with
  | names space => exact fun n hn => absurd hn List.not_mem_nil
  | _ => decide

/-- A variable with a name of the key is stored under its path. -/
theorem variableKey?_of_mem {key : Key} {n : String} (h : Text.lower n ∈ key.variableNames) :
    ∃ name, key.dotted? = some name ∧ variableKey? n = some name := by
  obtain ⟨hsome, hstart, hpath⟩ := key.dotted_variableNames _ h
  obtain ⟨name, hname⟩ := Option.isSome_iff_exists.mp hsome
  refine ⟨name, hname, ?_⟩
  rw [variableKey?]
  simp only [hstart, if_true]
  rw [hpath, hname]

/-- A variable whose name begins in another way is passed over. -/
theorem variableKey?_eq_none {n : String}
    (h : ¬ "xsd_registry__".toList <+: (Text.lower n).toList) : variableKey? n = none := by
  have hstart : ¬ variableStart.isPrefixOf (Text.lower n).toList := by
    rwa [List.isPrefixOf_iff_prefix]
  rw [variableKey?]
  simp only [hstart, Bool.false_eq_true, if_false]

/-! ## Texts of variables -/

/-- What is no letter stands for itself in lower case. -/
theorem eq_of_toLower {c : Char} (h : c.toNat < 0x41 ∨ c.toLower.toNat < 0x41) :
    c.toLower = c := by
  by_cases hupper : c.val ≥ 'A'.val ∧ c.val ≤ 'Z'.val
  · have hrange : 0x41 ≤ c.toNat ∧ c.toNat < 0x5B :=
      ⟨hupper.1, Nat.lt_succ_of_le hupper.2⟩
    have hall : ∀ n < 0x5B, 0x41 ≤ n → 0x41 ≤ (Char.ofNat n).toLower.toNat := by decide
    have hletter := hall c.toNat hrange.2 hrange.1
    rw [Char.ofNat_toNat] at hletter
    omega
  · exact dif_neg hupper

/-- A text of letters, as far as its first character tells. -/
def BeginsWithLetter (text : String) : Prop := ∃ c cs, text.toList = c :: cs ∧ 0x41 ≤ c.toNat

theorem isDigit_eq_false {c : Char} (h : 0x41 ≤ c.toNat) : Text.isDigit c = false := by
  have hnine : ¬ c ≤ '9' := by
    rw [Char.le_def, UInt32.le_iff_toNat_le]
    exact Nat.not_le_of_lt (Nat.lt_of_lt_of_le (by decide) h)
  rw [Text.isDigit, decide_eq_false hnine, Bool.and_false]

theorem takeSign_letter {c : Char} (h : 0x41 ≤ c.toNat) (cs : List Char) :
    Decimal.takeSign (c :: cs) = (false, c :: cs) := by
  rw [Decimal.takeSign]
  all_goals
    intro _ heq
    obtain ⟨rfl, -⟩ := List.cons.inj heq
    exact absurd h (by decide)

/-- A text that begins with a letter is no integer. -/
theorem integer?_eq_none {text : String} (h : BeginsWithLetter text) :
    Decimal.integer? text = none := by
  obtain ⟨c, cs, htext, hc⟩ := h
  rw [Decimal.integer?, htext, takeSign_letter hc]
  simp [isDigit_eq_false hc]

/-- A text that begins with a letter is a float only if it is one of the special words. -/
theorem float?_eq_none {text : String} (h : BeginsWithLetter text)
    (hword : Decimal.words.lookup (String.ofList (text.toList.map Char.toLower)) = none) :
    Decimal.float? text = none := by
  obtain ⟨c, cs, htext, hc⟩ := h
  have hpoint : Decimal.takeFraction (c :: cs) = ([], c :: cs) := by
    rw [Decimal.takeFraction]
    intro _ heq
    obtain ⟨rfl, -⟩ := List.cons.inj heq
    exact absurd hc (by decide)
  rw [htext] at hword
  rw [Decimal.float?, htext, takeSign_letter hc]
  simp only [hword]
  simp [isDigit_eq_false hc, hpoint]

/-- The words that look neither like one of the two flags nor like a number. -/
def plainWords : List String := ["on", "yes", "off", "no", "pretty", "compact"]

theorem letter_of_mem_plain {word : String} (h : word ∈ plainWords) {c : Char}
    (hc : c ∈ word.toList) : 0x61 ≤ c.toNat ∧ c.toNat < 0x80 ∧ c ≠ 'k' := by
  have hletters : ∀ word ∈ plainWords, ∀ c ∈ word.toList,
      0x61 ≤ c.toNat ∧ c.toNat < 0x80 ∧ c ≠ 'k' := by
    simp [plainWords]
  exact hletters word h c hc

/-- Only letters of ASCII come to one of these words in lower case. -/
theorem map_toLower_plain {text : String} (h : Text.lower text ∈ plainWords) :
    text.toList.map Char.toLower = (Text.lower text).toList := by
  refine Text.map_toLower_of_lower rfl fun c hc => ?_
  obtain ⟨hletter, hascii, hkelvin⟩ := letter_of_mem_plain h hc
  refine ⟨?_, hascii, hkelvin⟩
  rintro rfl
  exact absurd hletter (by decide)

theorem beginsWithLetter_plain {text : String} (h : Text.lower text ∈ plainWords) :
    BeginsWithLetter text := by
  have hne : ∀ word ∈ plainWords, word.toList ≠ [] := by decide
  obtain ⟨d, ds, hds⟩ := List.exists_cons_of_ne_nil (hne _ h)
  have hletter := (letter_of_mem_plain h (hds ▸ List.mem_cons_self)).1
  have hlower := map_toLower_plain h
  rw [hds] at hlower
  obtain ⟨c, cs, htext, rfl, -⟩ := List.map_eq_cons_iff.mp hlower
  refine ⟨c, cs, htext, Nat.le_of_not_lt fun hc => ?_⟩
  rw [eq_of_toLower (.inl hc)] at hletter
  omega

/-- Such a word is read as a text. -/
theorem variableValue_plain {text : String} (h : Text.lower text ∈ plainWords) :
    variableValue text = .text text := by
  have hplain : ∀ word ∈ plainWords, [("true", true), ("false", false)].lookup word = none ∧
      (Decimal.words.lookup word).isNone := by
    decide
  obtain ⟨hflag, hnumber⟩ := hplain _ h
  have hbegins := beginsWithLetter_plain h
  have hword : Decimal.words.lookup (String.ofList (text.toList.map Char.toLower)) = none := by
    rw [map_toLower_plain h, String.ofList_toList]
    exact Option.isNone_iff_eq_none.mp hnumber
  simp only [variableValue, hflag, integer?_eq_none hbegins, Option.filter_none,
    float?_eq_none hbegins hword]

/-- A word is also read as a text, for the keys that have words. -/
theorem Key.read_word {key : Key} {text : String} {x : Setting}
    (h : key.words.lookup (Text.lower text) = some x) : key.read (.text text) = some x := by
  cases key <;> first | contradiction | exact h

/-- A digit is its own lower case, and that of nothing else. -/
theorem eq_of_lower_digit {text : String} {d : Char} (hd : d.toNat < 0x41) (hzero : d ≠ '\x00')
    (h : Text.lower text = String.singleton d) : text = String.singleton d := by
  have hlower : text.toList.map Char.toLower = [d] := by
    rw [Text.map_toLower_of_lower h, String.toList_singleton]
    intro c hc
    rw [String.toList_singleton] at hc
    obtain rfl := List.mem_singleton.mp hc
    refine ⟨hzero, Nat.lt_trans hd (by decide), ?_⟩
    rintro rfl
    contradiction
  obtain ⟨c, cs, htext, rfl, hcs⟩ := List.map_eq_cons_iff.mp hlower
  obtain rfl := List.map_eq_nil_iff.mp hcs
  rw [← String.ofList_toList (s := text), htext, eq_of_toLower (.inr hd)]
  rfl

/-- The words that look like a flag or like a number, with what they look like. -/
def typedWords : List (String × Raw) :=
  [("true", .flag true), ("false", .flag false), ("1", .integer 1), ("0", .integer 0)]

/-- A word of the table stands for its value, in any case of letters. -/
theorem variableValue_typed {text : String} {e : String × Raw} (he : e ∈ typedWords)
    (h : Text.lower text = e.1) : variableValue text = e.2 := by
  simp only [typedWords, List.mem_cons, List.not_mem_nil, or_false] at he
  obtain rfl | rfl | rfl | rfl := he
  · rw [variableValue, h]
    rfl
  · rw [variableValue, h]
    rfl
  · obtain rfl := eq_of_lower_digit (d := '1') (by decide) (by decide) h
    rw [variableValue, h]
    rfl
  · obtain rfl := eq_of_lower_digit (d := '0') (by decide) (by decide) h
    rw [variableValue, h]
    rfl

/-- **The words of a key mean what the reader of variables makes of them.** -/
theorem read_variableValue {key : Key} {text : String} {x : Setting}
    (h : key.words.lookup (Text.lower text) = some x) :
    key.read (variableValue text) = some x := by
  have hwords : ∀ e ∈ key.words, e.1 ∈ plainWords ∨
      ∃ typed ∈ typedWords, e.1 = typed.1 ∧ key.read typed.2 = some e.2 := by
    cases key <;> simp [Key.words, plainWords, typedWords, Key.read]
  obtain ⟨before, after, heq, -⟩ := List.lookup_eq_some_iff.mp h
  rcases hwords _ (heq ▸ List.mem_append_right _ List.mem_cons_self) with
    hplain | ⟨typed, htyped, hword, hread⟩
  · rw [variableValue_plain hplain]
    exact Key.read_word h
  · rw [variableValue_typed htyped hword, hread]

/-! ## Layers of variables -/

/-- What a variable says about a key is stored under the path of the key, and
read as such. -/
theorem Key.stored_of_said {key : Key} {v : String × String} {x : Setting}
    (h : key.said v = some x) : ∃ name, key.dotted? = some name ∧ variableKey? v.1 = some name ∧
      key.read (variableValue v.2) = some x := by
  rw [said] at h
  split at h
  · next hname =>
    obtain ⟨name, hdotted, hvariable⟩ := variableKey?_of_mem hname
    exact ⟨name, hdotted, hvariable, read_variableValue h⟩
  · contradiction

/-- What is passed over says nothing. -/
theorem Key.said_eq_none {v : String × String} (h : variableKey? v.1 = none) (key : Key) :
    key.said v = none := by
  refine Option.eq_none_iff_forall_ne_some.mpr fun x hx => ?_
  obtain ⟨name, -, hname, -⟩ := key.stored_of_said hx
  rw [h] at hname
  contradiction

/-- A variable's path leads through a section. -/
theorem Key.exists_of_dotted? {key : Key} {name : String} (h : key.dotted? = some name) :
    ∃ outer inner, key.path = [outer, inner] ∧ [outer] ∈ sectionPaths ∧ outer ∈ Raw.knownKeys ∧
      Raw.path? name = some [.child outer, .child inner] := by
  cases key with
  | includeXsd =>
      obtain rfl := Option.some.inj h
      exact ⟨_, _, rfl, by decide, by decide, rfl⟩
  | dedup =>
      obtain rfl := Option.some.inj h
      exact ⟨_, _, rfl, by decide, by decide, rfl⟩
  | strict =>
      obtain rfl := Option.some.inj h
      exact ⟨_, _, rfl, by decide, by decide, rfl⟩
  | format =>
      obtain rfl := Option.some.inj h
      exact ⟨_, _, rfl, by decide, by decide, rfl⟩
  | _ => contradiction

/-- No two keys share a dotted name. -/
theorem Key.dotted?_injective {key key' : Key} {name : String} (h : key.dotted? = some name)
    (h' : key'.dotted? = some name) : key = key' := by
  obtain ⟨outer, inner, hkey, -, -, hpath⟩ := key.exists_of_dotted? h
  obtain ⟨outer', inner', hkey', -, -, hpath'⟩ := key'.exists_of_dotted? h'
  rw [hpath] at hpath'
  cases hpath'
  exact Key.path_injective (hkey.trans hkey'.symm)

/-- A value under a path of two keys is laid where a table with it under the one
key would lay it under the other. -/
theorem Raw.setEntry_path {name outer inner : String}
    (hpath : path? name = some [.child outer, .child inner]) (houter : outer ∈ knownKeys)
    (v root : Raw) :
    setEntry root (name, v) = mergeAll [(outer, table [(inner, v)])] root := by
  have hempty : ∀ old : Option Raw,
      merge inner v (old.getD nothing) = merge inner v (old.getD (table [])) := by
    intro old
    cases old with
    | some old => rfl
    | none => cases v <;> rfl
  simp only [setEntry, hpath, setAt, List.getLast?_cons_cons, List.getLast?_singleton,
    List.dropLast_cons_cons, List.dropLast_singleton, changeAt, mergeAll, merge_table houter, hempty]

section

variable {outer inner : String} {v : Raw} {key : Key}

/-- The layer that a variable comes to is of the right kind. -/
theorem typedAt_variable (hkey : key.path = [outer, inner]) (hplace : [outer] ∈ sectionPaths)
    (hlower : key.Lower) (hread : (key.read v).isSome) :
    TypedAt [] (.table [(outer, .table [(inner, v)])]) := by
  have hsetting : TypedAt ([outer] ++ [inner]) v := by
    rw [List.singleton_append, ← hkey]
    exact .setting key hlower hread
  exact .cons (.cons hsetting (.nil hplace)) (.nil (by decide))

/-- A variable sets a value in a section, and nothing beside it. -/
theorem cases_at?_variable (hleaf : ¬ v.IsTable) {path : List String} {w : Raw}
    (hw : (Raw.table [(outer, .table [(inner, v)])]).at? path = some w) :
    (path = [] ∧ w = .table [(outer, .table [(inner, v)])]) ∨
      (path = [outer] ∧ w = .table [(inner, v)]) ∨ (path = [outer, inner] ∧ w = v) := by
  have hend {w' : Raw} (h : w'.at? [] = some w) : w = w' := (Option.some.inj h).symm
  cases path with
  | nil => exact .inl ⟨rfl, hend hw⟩
  | cons k path =>
      rw [Raw.at?_singleton] at hw
      split at hw
      · next hk =>
        subst hk
        cases path with
        | nil => exact .inr (.inl ⟨rfl, hend hw⟩)
        | cons k' path =>
            rw [Raw.at?_singleton] at hw
            split at hw
            · next hk' =>
              subst hk'
              cases path with
              | nil => exact .inr (.inr ⟨rfl, hend hw⟩)
              | cons k'' path =>
                  rw [Raw.at?_eq_none hleaf] at hw
                  contradiction
            · contradiction
      · contradiction

/-- A variable sets no key twice. -/
theorem distinct_variable (hleaf : ¬ v.IsTable) :
    (Raw.table [(outer, .table [(inner, v)])]).Distinct := by
  intro path w hw
  rcases cases_at?_variable hleaf hw with ⟨-, rfl⟩ | ⟨-, rfl⟩ | ⟨-, rfl⟩
  · exact List.nodup_singleton _
  · exact List.nodup_singleton _
  · have hentries : w.entries = [] := by
      cases w with
      | table es => exact absurd ⟨es, rfl⟩ hleaf
      | _ => rfl
    rw [hentries]
    exact List.nodup_nil

/-- It has nothing but the value of the variable. -/
theorem at?_variable (hkey : key.path = [outer, inner]) (hleaf : ¬ v.IsTable) (key' : Key) :
    (Raw.table [(outer, .table [(inner, v)])]).at? key'.path =
      if key' = key then some v else none := by
  split
  · next heq =>
    rw [heq, hkey, Raw.at?_singleton, if_pos rfl, Raw.at?_singleton, if_pos rfl, Raw.at?_nil]
  · next hne =>
    refine Option.eq_none_iff_forall_ne_some.mpr fun w hw => ?_
    rcases cases_at?_variable hleaf hw with ⟨hpath, -⟩ | ⟨hpath, -⟩ | ⟨hpath, -⟩
    · exact key'.path_not_mem (hpath ▸ by decide)
    · exact key'.path_ne_singleton _ hpath
    · exact hne (Key.path_injective (hpath.trans hkey.symm))

end

/-- A variable speaks of one key only. -/
theorem Key.eq_of_said {key key' : Key} {v : String × String} (h : (key.said v).isSome)
    (h' : (key'.said v).isSome) : key' = key := by
  obtain ⟨x, hx⟩ := Option.isSome_iff_exists.mp h
  obtain ⟨x', hx'⟩ := Option.isSome_iff_exists.mp h'
  obtain ⟨name, hdotted, hname, -⟩ := key.stored_of_said hx
  obtain ⟨name', hdotted', hname', -⟩ := key'.stored_of_said hx'
  obtain rfl := Option.some.inj (hname.symm.trans hname')
  exact Key.dotted?_injective hdotted' hdotted

/-- **A variable comes to the same as a layer of the right kind**, which has what
the variable says and nothing else. -/
theorem Key.exists_variable_layer {key : Key} {v : String × String} (h : (key.said v).isSome) :
    ∃ name l, variableKey? v.1 = some name ∧
      (∀ root, Raw.setEntry root (name, variableValue v.2) = Raw.mergeAll l root) ∧
      (TypedAt [] (.table l) ∧ (Raw.table l).Distinct) ∧
      ∀ key' : Key, ((Raw.table l).at? key'.path).bind key'.read = key'.said v := by
  obtain ⟨x, hx⟩ := Option.isSome_iff_exists.mp h
  obtain ⟨name, hdotted, hname, hread⟩ := key.stored_of_said hx
  obtain ⟨outer, inner, hkey, hplace, houter, hpath⟩ := key.exists_of_dotted? hdotted
  have hlower : key.Lower := by
    cases key <;> trivial
  have hsome : (key.read (variableValue v.2)).isSome := by
    rw [hread]
    rfl
  have hleaf := Key.not_isTable_of_read hsome
  refine ⟨name, [(outer, .table [(inner, variableValue v.2)])], hname,
    Raw.setEntry_path hpath houter _,
    ⟨typedAt_variable hkey hplace hlower hsome, distinct_variable hleaf⟩, fun key' => ?_⟩
  rw [at?_variable hkey hleaf]
  by_cases heq : key' = key
  · rw [if_pos heq, Option.bind_some, heq, hread, hx]
  · rw [if_neg heq, Option.bind_none]
    exact (Option.not_isSome_iff_eq_none.mp fun h' => heq (Key.eq_of_said h h')).symm

/-- **The environment comes to the same as layers of the right kind**, one for
each variable that is meant for settings. -/
theorem exists_variable_layers {environment : List (String × String)}
    (h : TypedEnvironment environment) :
    ∃ ls : List (List (String × Raw)), (∀ root, Raw.lay root (environmentLayer environment) =
        ls.foldl (fun root l => Raw.mergeAll l root) root) ∧
      (∀ l ∈ ls, TypedAt [] (.table l) ∧ (Raw.table l).Distinct) ∧
      ∀ key : Key, ls.filterMap (fun l => ((Raw.table l).at? key.path).bind key.read) =
        environment.filterMap key.said := by
  induction environment with
  | nil => exact ⟨[], fun _ => rfl, by simp, fun _ => rfl⟩
  | cons v environment ih =>
      obtain ⟨hv, henvironment⟩ := List.forall_mem_cons.mp h
      obtain ⟨ls, hlay, htyped, hgiven⟩ := ih henvironment
      by_cases hbegins : "xsd_registry__".toList <+: (Text.lower v.1).toList
      · obtain ⟨key, hsaid⟩ := hv hbegins
        obtain ⟨name, l, hname, hset, hkind, hsays⟩ := key.exists_variable_layer hsaid
        have hentry : environmentLayer (v :: environment) =
            (name, variableValue v.2) :: environmentLayer environment := by
          rw [environmentLayer, List.filterMap_cons_some (by rw [hname]; rfl)]
          rfl
        refine ⟨l :: ls, fun root => ?_, List.forall_mem_cons.mpr ⟨hkind, htyped⟩, fun key' => ?_⟩
        · rw [hentry, List.foldl_cons, ← hlay, ← hset]
          rfl
        · rw [List.filterMap_cons, List.filterMap_cons, hgiven key', hsays]
      · have hname := variableKey?_eq_none hbegins
        refine ⟨ls, fun root => ?_, htyped, fun key => ?_⟩
        · rw [← hlay root, environmentLayer, List.filterMap_cons_none (by rw [hname]; rfl)]
          rfl
        · rw [hgiven key, List.filterMap_cons_none (key.said_eq_none hname)]

end SchemaCatalog.Settings
