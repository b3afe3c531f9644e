import SchemaCatalog.Proofs.Settings.Keys

/-!
# SchemaCatalog.Proofs.Settings.Reading

Layers of the right kind can be read as settings (`isSome_ofRaw?`), and each key
has in these what stands at its place, or its default if nothing stands there
(`value_eq`).

The parts of what is read are followed to the places they come from
(`ReadsAt`): through the slots of a section (`ReadsAt.of_sets`), and from there
into the sections of the whole (`ReadsAt.append`).
-/

namespace SchemaCatalog.Settings

open Raw (Slot readSection readEntries flag? text? texts? lists? named?)
open Toml (find? find?_cons find?_eq_none find?_eq_some_iff mem_of_find?)

section

variable {σ τ α : Type} {slots : List (Slot σ)} {s s' : σ} {key : String}
  {es : List (String × Raw)} {v w : Raw}

/-! ## Slots -/

/-- Nothing that the slot reads changes a part of the section. -/
def Raw.Slot.Keeps (slot : Slot σ) (get : σ → α) : Prop :=
  ∀ v s s', slot.read v s = some s' → get s' = get s

@[simp]
theorem Raw.Slot.key_of {read : Raw → Option α} {put : σ → α → σ} :
    (Slot.of key read put).key = key := rfl

/-- A slot keeps each field that its change leaves as it is. -/
theorem Raw.Slot.keeps_of {β : Type} {read : Raw → Option β} {put : σ → β → σ} {get : σ → α}
    (h : ∀ s a, get (put s a) = get s) : (Slot.of key read put).Keeps get := by
  intro v s s' hread
  obtain ⟨a, -, rfl⟩ := Option.map_eq_some_iff.mp hread
  exact h s a

/-- Among some slots, the one of a key is there for a part of the section, and the
others do not change that part. -/
structure Sets (slots : List (Slot σ)) (key : String) (read : Raw → Option α) (get : σ → α) :
    Prop where
  own : ∃ slot, slots.find? (·.key == key) = some slot ∧
    ∀ v s s', slot.read v s = some s' → read v = some (get s')
  others : ∀ slot ∈ slots, slot.key ≠ key → slot.Keeps get

/-- A field is set by the slot of its key, if all other slots keep it. -/
theorem Sets.of {read : Raw → Option α} {put : σ → α → σ} {get : σ → α}
    (hfind : slots.find? (·.key == key) = some (.of key read put))
    (hget : ∀ s a, get (put s a) = a) (hothers : ∀ slot ∈ slots, slot.key ≠ key → slot.Keeps get) :
    Sets slots key read get where
  own := by
    refine ⟨_, hfind, fun v s s' hread => ?_⟩
    obtain ⟨a, ha, rfl⟩ := Option.map_eq_some_iff.mp hread
    rw [hget]
    exact ha
  others := hothers

/-- What is read from entries has in each part what the entry under its key
says, and if there is no such entry, what was there. -/
theorem Sets.readEntries {read : Raw → Option α} {get : σ → α} (h : Sets slots key read get)
    (hnodup : (es.map (·.1)).Nodup) (hread : readEntries slots s es = some s') :
    (∀ w, find? es key = some w → read w = some (get s')) ∧
      (find? es key = none → get s' = get s) := by
  induction es generalizing s with
  | nil =>
      obtain rfl := Option.some.inj hread
      exact ⟨fun w hw => by contradiction, fun _ => rfl⟩
  | cons e es ih =>
      obtain ⟨k, v⟩ := e
      obtain ⟨own, hown, hownread⟩ := h.own
      rw [List.map_cons, List.nodup_cons] at hnodup
      rw [Raw.readEntries] at hread
      rw [find?_cons]
      cases hslot : slots.find? (·.key == k) with
      | none =>
          rw [hslot] at hread
          have hne : key ≠ k := by
            rintro rfl
            rw [hown] at hslot
            contradiction
          rw [if_neg hne]
          exact ih hnodup.2 hread
      | some slot =>
          rw [hslot] at hread
          obtain ⟨s₁, hs₁, hread⟩ := Option.bind_eq_some_iff.mp hread
          obtain ⟨hpresent, habsent⟩ := ih hnodup.2 hread
          by_cases hkey : key = k
          · subst hkey
            obtain rfl := Option.some.inj (hown.symm.trans hslot)
            rw [if_pos rfl]
            refine ⟨fun w hw => ?_, fun hnone => by contradiction⟩
            obtain rfl := Option.some.inj hw
            rw [habsent (find?_eq_none hnodup.1)]
            exact hownread v s s₁ hs₁
          · have hslotkey : slot.key = k := by simpa using List.find?_some hslot
            have hkept : get s₁ = get s :=
              h.others slot (List.mem_of_find?_eq_some hslot) (hslotkey ▸ Ne.symm hkey) v s s₁ hs₁
            rw [if_neg hkey]
            exact ⟨hpresent, fun hnone => (habsent hnone).trans hkept⟩

/-- Entries are read if each slot can read the value of its key. -/
theorem isSome_readEntries
    (h : ∀ e ∈ es, ∀ slot ∈ slots, slot.key = e.1 → ∀ s, (slot.read e.2 s).isSome) (s : σ) :
    (readEntries slots s es).isSome := by
  induction es generalizing s with
  | nil => rfl
  | cons e es ih =>
      obtain ⟨hfirst, hrest⟩ := List.forall_mem_cons.mp h
      rw [readEntries]
      split
      · next slot hslot =>
        have hkey : slot.key = e.1 := by simpa using List.find?_some hslot
        obtain ⟨s₁, hs₁⟩ :=
          Option.isSome_iff_exists.mp (hfirst slot (List.mem_of_find?_eq_some hslot) hkey s)
        rw [hs₁, Option.bind_some]
        exact ih hrest s₁
      · exact ih hrest s

/-- A section can be read if its slots can read what stands under their keys. -/
theorem isSome_readSection {d : σ} (hv : v.IsTable) (hdistinct : v.Distinct)
    (h : ∀ slot ∈ slots, ∀ w, v.at? [slot.key] = some w → ∀ s, (slot.read w s).isSome) :
    (readSection slots d v).isSome := by
  obtain ⟨es, rfl⟩ := hv
  refine isSome_readEntries (fun e he slot hslot hkey => h slot hslot e.2 ?_) d
  have hnodup : (es.map (·.1)).Nodup := hdistinct [] _ rfl
  rw [hkey, Raw.at?_key, (find?_eq_some_iff hnodup).mpr he]

/-! ## Places -/

/-- From values at a place of a layer something is read, and a part of it from
what stands at some path from there. -/
def ReadsAt (place : List String) (read? : Raw → Option σ) (path : List String)
    (read : Raw → Option α) (get : σ → α) (unset : α) : Prop :=
  ∀ v s, TypedAt place v → v.Distinct → read? v = some s →
    (∀ w, v.at? path = some w → read w = some (get s)) ∧ (v.at? path = none → get s = unset)

/-- At the place of a section a typed value is a table. -/
theorem TypedAt.isTable {place : List String} (h : TypedAt place v) (hplace : place ∈ sectionPaths) :
    v.IsTable := by
  have hallowed := h [] v rfl
  rw [List.append_nil] at hallowed
  exact hallowed.isTable_iff.mpr hplace

/-- What lies in a typed value is typed. -/
theorem TypedAt.child {place path : List String} (h : TypedAt place v) (hw : v.at? path = some w) :
    TypedAt (place ++ path) w := by
  intro more x hx
  rw [List.append_assoc]
  exact h (path ++ more) x (by rw [Raw.at?_append, hw, Option.bind_some, hx])

theorem Raw.Distinct.child {path : List String} (h : v.Distinct) (hw : v.at? path = some w) :
    w.Distinct :=
  fun more x hx => h (path ++ more) x (by rw [Raw.at?_append, hw, Option.bind_some, hx])

/-- The parts of a section are read from under their keys. -/
theorem ReadsAt.of_sets {place : List String} (hplace : place ∈ sectionPaths) {d : σ}
    {read : Raw → Option α} {get : σ → α} (h : Sets slots key read get) :
    ReadsAt place (readSection slots d) [key] read get (get d) := by
  intro v s htyped hdistinct hread
  obtain ⟨es, rfl⟩ := htyped.isTable hplace
  rw [Raw.at?_key]
  exact h.readEntries (hdistinct [] _ rfl) hread

/-- A part of a part is read from behind both paths. -/
theorem ReadsAt.append {place path path' : List String} {read? : Raw → Option σ}
    {inner? : Raw → Option τ} {read : Raw → Option α} {get : σ → τ} {get' : τ → α} {u : τ} {u' : α}
    (h : ReadsAt place read? path inner? get u)
    (h' : ReadsAt (place ++ path) inner? path' read get' u') (hu : get' u = u') :
    ReadsAt place read? (path ++ path') read (fun s => get' (get s)) u' := by
  intro v s htyped hdistinct hread
  obtain ⟨hpresent, habsent⟩ := h v s htyped hdistinct hread
  rw [Raw.at?_append]
  cases hw : v.at? path with
  | none =>
      exact ⟨fun x hx => by contradiction, fun _ => (congrArg get' (habsent hw)).trans hu⟩
  | some w =>
      rw [Option.bind_some]
      exact h' w (get s) (htyped.child hw) (hdistinct.child hw) (hpresent w hw)

end

/-! ## Values of the right kind -/

/-- Looking up a word commutes with changing the values. -/
theorem lookup_map {α β : Type} (f : α → β) (words : List (String × α)) (word : String) :
    (words.map fun e => (e.1, f e.2)).lookup word = (words.lookup word).map f := by
  induction words with
  | nil => rfl
  | cons e words ih =>
      rw [List.map_cons, List.lookup_cons, List.lookup_cons, ih]
      split <;> rfl

section

variable {key : Key} {w : Raw}

/-- A value that a flag can be set to is read as this flag. -/
theorem read_flag (hkey : key = .includeXsd ∨ key = .dedup ∨ key = .strict)
    (h : (key.read w).isSome) : key.read w = (flag? w).map .flag := by
  have hwords : key.words = Raw.flagWords.map fun e => (e.1, .flag e.2) := by
    rcases hkey with rfl | rfl | rfl <;> rfl
  have htext (word : String) : key.read (.text word) = (flag? (.text word)).map .flag := by
    rw [flag?, ← lookup_map, ← hwords]
    rcases hkey with rfl | rfl | rfl <;> rfl
  cases w with
  | text word => exact htext word
  | _ => rcases hkey with rfl | rfl | rfl <;> first | rfl | contradiction

/-- So is a text. -/
theorem read_text (h : (Key.extension.read w).isSome) :
    Key.extension.read w = (text? w).map .text := by
  cases w with
  | text s => rfl
  | _ => contradiction

/-- So is a list of texts. -/
theorem read_texts (hkey : (∃ space, key = .names space) ∨ key = .skip)
    (h : (key.read w).isSome) : key.read w = (texts? w).map .texts := by
  have hlist (items : List Raw) :
      key.read (.list items) = (items.mapM Raw.ownText?).map .texts := by
    rcases hkey with ⟨space, rfl⟩ | rfl <;> rfl
  cases w with
  | list items =>
      rw [hlist, Option.isSome_map, Option.isSome_iff_exists] at h
      obtain ⟨ss, hss⟩ := h
      rw [hlist, texts?, hss, Raw.mapM_text?_of_own hss]
  | _ => rcases hkey with ⟨space, rfl⟩ | rfl <;> contradiction

/-- So is the name of a format. -/
theorem read_format (h : (Key.format.read w).isSome) :
    Key.format.read w = (named? Format.byName w).map .format := by
  cases w with
  | text name => exact lookup_map Setting.format Format.byName _
  | _ => contradiction

end

/-! ## Extra names -/

section

variable {es : List (String × Raw)} {ls : List (String × List String)}

/-- The names of a namespace are read from its entry. -/
theorem find?_of_mapM (h : es.mapM (fun e => (texts? e.2).map fun l => (e.1, l)) = some ls) :
    ls.map (·.1) = es.map (·.1) ∧ ∀ space, find? ls space = (find? es space).bind texts? := by
  induction es generalizing ls with
  | nil =>
      obtain rfl := Option.some.inj h
      exact ⟨rfl, fun _ => rfl⟩
  | cons e es ih =>
      obtain ⟨key, v⟩ := e
      rw [List.mapM_cons] at h
      obtain ⟨pair, hpair, h⟩ := Option.bind_eq_some_iff.mp h
      obtain ⟨more, hmore, h⟩ := Option.bind_eq_some_iff.mp h
      obtain rfl := Option.some.inj h
      obtain ⟨l, hl, rfl⟩ := Option.map_eq_some_iff.mp hpair
      obtain ⟨hkeys, hfind⟩ := ih hmore
      refine ⟨congrArg (key :: ·) hkeys, fun space => ?_⟩
      rw [find?_cons, find?_cons]
      split
      · exact hl.symm
      · exact hfind space

/-- Names are read for all namespaces if they can be read for each. -/
theorem isSome_mapM (h : ∀ e ∈ es, (texts? e.2).isSome) :
    (es.mapM fun e => (texts? e.2).map fun l => (e.1, l)).isSome := by
  induction es with
  | nil => rfl
  | cons e es ih =>
      obtain ⟨hfirst, hrest⟩ := List.forall_mem_cons.mp h
      obtain ⟨l, hl⟩ := Option.isSome_iff_exists.mp hfirst
      obtain ⟨ls, hls⟩ := Option.isSome_iff_exists.mp (ih hrest)
      rw [List.mapM_cons, hl, hls]
      rfl

/-- The names of each namespace are read from under it. -/
theorem reads_names (space : String) : ReadsAt ["builtins", "extra"] lists? [space]
    (fun w => (texts? w).map some) (·.get? space) none := by
  intro v t htyped hdistinct hread
  obtain ⟨es, rfl⟩ := htyped.isTable (by decide)
  have hnodup : (es.map (·.1)).Nodup := hdistinct [] _ rfl
  obtain ⟨ls, hls, rfl⟩ := Option.map_eq_some_iff.mp hread
  obtain ⟨hkeys, hfind⟩ := find?_of_mapM hls
  dsimp only
  rw [get?_ofList (hkeys ▸ hnodup), hfind]
  refine ⟨fun w hw => ?_, fun hnone => ?_⟩
  · have hallowed : Allowed (Key.names space).path w := htyped [space] w hw
    have hsome := hallowed.isSome_read
    rw [Raw.at?_key] at hw
    rw [read_texts (.inl ⟨space, rfl⟩) hsome, Option.isSome_map, Option.isSome_iff_exists] at hsome
    obtain ⟨l, hl⟩ := hsome
    rw [hw, Option.bind_some, hl, Option.map_some]
  · rw [Raw.at?_key] at hnone
    rw [hnone, Option.bind_none]

end

/-! ## Sections -/

/-- Whether the schema names are built in is set by its key, and true by default. -/
theorem reads_includeXsd : ReadsAt ["builtins"] BuiltinSection.ofRaw? ["include_xsd"] flag?
    (·.includeXsd) true := by
  refine .of_sets (by decide) (.of rfl (fun _ _ => rfl) ?_)
  simp [Slot.keeps_of]

/-- The additional names are set by their key, and none by default. -/
theorem reads_extra : ReadsAt ["builtins"] BuiltinSection.ofRaw? ["extra"] lists?
    (·.extra) ∅ := by
  refine .of_sets (by decide) (.of rfl (fun _ _ => rfl) ?_)
  simp [Slot.keeps_of]

/-- Deduplication is set by its key, and on by default. -/
theorem reads_dedup : ReadsAt ["merge"] MergeSection.ofRaw? ["dedup_external_references"] flag?
    (·.dedup) true := by
  refine .of_sets (by decide) (.of rfl (fun _ _ => rfl) ?_)
  simp

/-- Strictness is set by its key, and on by default. -/
theorem reads_strict : ReadsAt ["resolve"] ResolveSection.ofRaw? ["strict"] flag?
    (·.strict) true := by
  refine .of_sets (by decide) (.of rfl (fun _ _ => rfl) ?_)
  simp

/-- The extension is set by its key. -/
theorem reads_extension : ReadsAt ["loader"] LoaderSection.ofRaw? ["extension"] text?
    (·.extension) "json" := by
  refine .of_sets (by decide) (.of rfl (fun _ _ => rfl) ?_)
  simp [Slot.keeps_of]

/-- The prefixes to skip are set by their key. -/
theorem reads_skip : ReadsAt ["loader"] LoaderSection.ofRaw? ["skip_prefixes"] texts?
    (·.skip) ["target/", ".git/"] := by
  refine .of_sets (by decide) (.of rfl (fun _ _ => rfl) ?_)
  simp [Slot.keeps_of]

/-- The format is set by its key, and pretty by default. -/
theorem reads_format : ReadsAt ["output"] OutputSection.ofRaw? ["format"] (named? Format.byName)
    (·.format) .pretty := by
  refine .of_sets (by decide) (.of rfl (fun _ _ => rfl) ?_)
  simp

theorem reads_builtins : ReadsAt [] ofRaw? ["builtins"] BuiltinSection.ofRaw?
    (·.builtins) {} := by
  refine .of_sets (by decide) (.of rfl (fun _ _ => rfl) ?_)
  simp [Slot.keeps_of]

theorem reads_merge : ReadsAt [] ofRaw? ["merge"] MergeSection.ofRaw?
    (·.merge) {} := by
  refine .of_sets (by decide) (.of rfl (fun _ _ => rfl) ?_)
  simp [Slot.keeps_of]

theorem reads_resolve : ReadsAt [] ofRaw? ["resolve"] ResolveSection.ofRaw?
    (·.resolve) {} := by
  refine .of_sets (by decide) (.of rfl (fun _ _ => rfl) ?_)
  simp [Slot.keeps_of]

theorem reads_loader : ReadsAt [] ofRaw? ["loader"] LoaderSection.ofRaw?
    (·.loader) {} := by
  refine .of_sets (by decide) (.of rfl (fun _ _ => rfl) ?_)
  simp [Slot.keeps_of]

theorem reads_output : ReadsAt [] ofRaw? ["output"] OutputSection.ofRaw?
    (·.output) {} := by
  refine .of_sets (by decide) (.of rfl (fun _ _ => rfl) ?_)
  simp [Slot.keeps_of]

section

variable {key : Key} {v : Raw} {s : Settings}

/-- What a key has in settings follows from the part that stands for it. -/
theorem ReadsAt.value {α : Type} {path : List String} {read : Raw → Option α} {get : Settings → α}
    {u : α} (h : ReadsAt [] ofRaw? path read get u) (f : α → Option Setting)
    (htyped : TypedAt [] v) (hdistinct : v.Distinct) (hs : ofRaw? v = some s)
    (hpath : key.path = path) (hread : ∀ w, (key.read w).isSome → key.read w = (read w).bind f)
    (hvalue : s.value key = f (get s)) (hdefault : key.default = f u) :
    s.value key = ((v.at? key.path).bind key.read).or key.default := by
  subst hpath
  obtain ⟨hpresent, habsent⟩ := h v s htyped hdistinct hs
  rw [hvalue]
  cases hat : v.at? key.path with
  | none => rw [habsent hat, hdefault, Option.bind_none, Option.none_or]
  | some w =>
      have hallowed : Allowed key.path w := htyped _ w hat
      have hsome := hallowed.isSome_read
      have hw := hread w hsome
      rw [hpresent w hat, Option.bind_some] at hw
      rw [Option.bind_some, Option.or_of_isSome hsome, hw]

/-- **Each key has in settings what is read from its place, or its default.** -/
theorem value_eq (key : Key) (htyped : TypedAt [] v) (hdistinct : v.Distinct)
    (hs : ofRaw? v = some s) :
    s.value key = ((v.at? key.path).bind key.read).or key.default := by
  cases key with
  | includeXsd =>
      exact (reads_builtins.append reads_includeXsd rfl).value (fun b => some (.flag b)) htyped
        hdistinct hs rfl (fun w hw => (read_flag (.inl rfl) hw).trans Option.map_eq_bind) rfl rfl
  | names space =>
      refine ((reads_builtins.append reads_extra rfl).append (reads_names space) rfl).value
        (fun names? => names?.map .texts) htyped hdistinct hs rfl (fun w hw => ?_) rfl rfl
      rw [read_texts (.inl ⟨space, rfl⟩) hw, Option.bind_map]
      exact Option.map_eq_bind
  | dedup =>
      exact (reads_merge.append reads_dedup rfl).value (fun b => some (.flag b)) htyped
        hdistinct hs rfl (fun w hw => (read_flag (.inr (.inl rfl)) hw).trans Option.map_eq_bind)
        rfl rfl
  | strict =>
      exact (reads_resolve.append reads_strict rfl).value (fun b => some (.flag b)) htyped
        hdistinct hs rfl (fun w hw => (read_flag (.inr (.inr rfl)) hw).trans Option.map_eq_bind)
        rfl rfl
  | extension =>
      exact (reads_loader.append reads_extension rfl).value (fun t => some (.text t)) htyped
        hdistinct hs rfl (fun w hw => (read_text hw).trans Option.map_eq_bind) rfl rfl
  | skip =>
      exact (reads_loader.append reads_skip rfl).value (fun ts => some (.texts ts)) htyped
        hdistinct hs rfl (fun w hw => (read_texts (.inr rfl) hw).trans Option.map_eq_bind) rfl rfl
  | format =>
      exact (reads_output.append reads_format rfl).value (fun f => some (.format f)) htyped
        hdistinct hs rfl (fun w hw => (read_format hw).trans Option.map_eq_bind) rfl rfl

end

/-! ## Layers that can be read -/

section

variable {v w : Raw} {place path : List String}

/-- A typed value can be read at its key. -/
theorem TypedAt.isSome_read (key : Key) (h : TypedAt place v) (hw : v.at? path = some w)
    (hkey : place ++ path = key.path) : (key.read w).isSome := by
  have hallowed := h path w hw
  rw [hkey] at hallowed
  exact hallowed.isSome_read

/-- A slot can read what its reader can. -/
theorem Raw.Slot.isSome_read {σ α : Type} {key : String} {read : Raw → Option α} {put : σ → α → σ}
    (h : (read w).isSome) (s : σ) : ((Slot.of key read put).read w s).isSome := by
  rw [Slot.of, Option.isSome_map]
  exact h

/-- A typed table of namespaces can be read. -/
theorem isSome_lists? (htyped : TypedAt ["builtins", "extra"] v) (hdistinct : v.Distinct) :
    (lists? v).isSome := by
  obtain ⟨es, rfl⟩ := htyped.isTable (by decide)
  have hnodup : (es.map (·.1)).Nodup := hdistinct [] _ rfl
  rw [lists?, Option.isSome_map]
  refine isSome_mapM fun e he => ?_
  have hat : (Raw.table es).at? [e.1] = some e.2 := by
    rw [Raw.at?_key, (find?_eq_some_iff hnodup).mpr he]
  have hread := htyped.isSome_read (.names e.1) hat rfl
  rwa [read_texts (.inl ⟨e.1, rfl⟩) hread, Option.isSome_map] at hread

/-- A typed section of built-in names can be read. -/
theorem BuiltinSection.isSome_ofRaw? (htyped : TypedAt ["builtins"] v) (hdistinct : v.Distinct) :
    (BuiltinSection.ofRaw? v).isSome := by
  refine isSome_readSection (htyped.isTable (by decide)) hdistinct ?_
  rw [List.forall_mem_cons, List.forall_mem_singleton]
  refine ⟨fun w hw => Slot.isSome_read ?_, fun w hw => Slot.isSome_read ?_⟩
  · have hread := htyped.isSome_read .includeXsd hw rfl
    rwa [read_flag (.inl rfl) hread, Option.isSome_map] at hread
  · exact isSome_lists? (htyped.child hw) (hdistinct.child hw)

theorem MergeSection.isSome_ofRaw? (htyped : TypedAt ["merge"] v) (hdistinct : v.Distinct) :
    (MergeSection.ofRaw? v).isSome := by
  refine isSome_readSection (htyped.isTable (by decide)) hdistinct ?_
  rw [List.forall_mem_singleton]
  intro w hw
  have hread := htyped.isSome_read .dedup hw rfl
  rw [read_flag (.inr (.inl rfl)) hread, Option.isSome_map] at hread
  exact Slot.isSome_read hread

theorem ResolveSection.isSome_ofRaw? (htyped : TypedAt ["resolve"] v) (hdistinct : v.Distinct) :
    (ResolveSection.ofRaw? v).isSome := by
  refine isSome_readSection (htyped.isTable (by decide)) hdistinct ?_
  rw [List.forall_mem_singleton]
  intro w hw
  have hread := htyped.isSome_read .strict hw rfl
  rw [read_flag (.inr (.inr rfl)) hread, Option.isSome_map] at hread
  exact Slot.isSome_read hread

theorem LoaderSection.isSome_ofRaw? (htyped : TypedAt ["loader"] v) (hdistinct : v.Distinct) :
    (LoaderSection.ofRaw? v).isSome := by
  refine isSome_readSection (htyped.isTable (by decide)) hdistinct ?_
  rw [List.forall_mem_cons, List.forall_mem_singleton]
  refine ⟨fun w hw => Slot.isSome_read ?_, fun w hw => Slot.isSome_read ?_⟩
  · have hread := htyped.isSome_read .extension hw rfl
    rwa [read_text hread, Option.isSome_map] at hread
  · have hread := htyped.isSome_read .skip hw rfl
    rwa [read_texts (.inr rfl) hread, Option.isSome_map] at hread

/-- A typed output section can be read. -/
theorem OutputSection.isSome_ofRaw? (htyped : TypedAt ["output"] v) (hdistinct : v.Distinct) :
    (OutputSection.ofRaw? v).isSome := by
  refine isSome_readSection (htyped.isTable (by decide)) hdistinct ?_
  rw [List.forall_mem_singleton]
  intro w hw
  have hread := htyped.isSome_read .format hw rfl
  rw [read_format hread, Option.isSome_map] at hread
  exact Slot.isSome_read hread

/-- **A layer of the right kind can be read.** -/
theorem isSome_ofRaw? (htyped : TypedAt [] v) (hdistinct : v.Distinct) : (ofRaw? v).isSome := by
  refine isSome_readSection (htyped.isTable (by decide)) hdistinct ?_
  simp only [List.forall_mem_cons, List.not_mem_nil, false_implies, implies_true, and_true]
  refine ⟨fun w hw => Slot.isSome_read ?_, fun w hw => Slot.isSome_read ?_,
    fun w hw => Slot.isSome_read ?_, fun w hw => Slot.isSome_read ?_,
    fun w hw => Slot.isSome_read ?_⟩
  · exact BuiltinSection.isSome_ofRaw? (htyped.child hw) (hdistinct.child hw)
  · exact MergeSection.isSome_ofRaw? (htyped.child hw) (hdistinct.child hw)
  · exact ResolveSection.isSome_ofRaw? (htyped.child hw) (hdistinct.child hw)
  · exact LoaderSection.isSome_ofRaw? (htyped.child hw) (hdistinct.child hw)
  · exact OutputSection.isSome_ofRaw? (htyped.child hw) (hdistinct.child hw)

end

end SchemaCatalog.Settings
