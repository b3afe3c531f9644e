import SchemaCatalog.Proofs.Arena
import SchemaCatalog.Registry.Filing

/-!
# SchemaCatalog.Proofs.Registry.Filing

What filing the children of a document root puts into a registry, said without
the registry: `Declaration.FiledUnder` tells which name in which bucket a
declaration takes in a namespace, and `Declaration.directive?` which document
it asks for.  A registry that has filed a list of declarations then

* looks up, under each name, the last one that takes it (`lookup_fileLooked`);
* lists the documents asked for, in order (`externalReferences_fileLooked`);
* is otherwise what it was (`frame_fileLooked`).

What became of each declaration on its way is `filingsLooked`.  Filing fails on
nodes that do not exist and on nothing else (`fileAll_eq_ok`,
`fileAll_of_valid`).
-/

namespace SchemaCatalog

/-! ## what a declaration stands for in a namespace -/

/-- The six kinds of declarations that are filed, one for each bucket. -/
def Bucket.kind : Bucket → Kind
  | complexTypes => .complexType
  | simpleTypes => .simpleType
  | elements => .element
  | groups => .group
  | attributes => .attr
  | attributeGroups => .attrGroup

/-- A kind is filed in the bucket of that kind. -/
theorem Bucket.ofKind?_eq_some_iff {kind : Kind} {b : Bucket} :
    ofKind? kind = some b ↔ kind = b.kind := by
  cases kind <;> cases b <;> simp [ofKind?, Bucket.kind]

/-- No kind has two buckets. -/
theorem Bucket.kind_injective {b b' : Bucket} (h : b.kind = b'.kind) : b = b' :=
  Option.some.inj ((ofKind?_eq_some_iff.mpr rfl).symm.trans (ofKind?_eq_some_iff.mpr h))

/-- The name of a declaration is built into the namespace, to which the
declaration belongs itself. -/
def Declaration.IsBuiltin (builtins : Builtins) (space : String) (d : Declaration) : Prop :=
  d.space = space ∧ ∃ name, d.name = some name ∧ builtins.contains space name = true

instance (builtins : Builtins) (space : String) (d : Declaration) :
    Decidable (d.IsBuiltin builtins space) :=
  match h : d.name with
  | none => isFalse fun ⟨_, name, hname, _⟩ => by simp [h] at hname
  | some name =>
    decidable_of_iff (d.space = space ∧ builtins.contains space name = true) (by
      simp [Declaration.IsBuiltin, h])

/-- A declaration takes a name in a bucket of a namespace: its kind belongs
there, it has the name, and it is not built in. -/
def Declaration.FiledUnder (builtins : Builtins) (space : String) (b : Bucket) (name : String)
    (d : Declaration) : Prop :=
  d.kind = b.kind ∧ d.name = some name ∧ ¬ d.IsBuiltin builtins space

instance (builtins : Builtins) (space : String) (b : Bucket) (name : String) (d : Declaration) :
    Decidable (d.FiledUnder builtins space b name) :=
  inferInstanceAs (Decidable (_ ∧ _ ∧ ¬ _))

/-- The document that an include or import directive asks for, if it names a
location and is not built in. -/
def Declaration.directive? (builtins : Builtins) (space : String) (d : Declaration) :
    Option ExternalReference :=
  if (d.kind = .inclusion ∨ d.kind = .importation) ∧ ¬ d.IsBuiltin builtins space then
    (d.attr? "schemaLocation" <|> d.attr? "location").map fun location =>
      ⟨(d.attr? "namespace" <|> d.attr? "targetNamespace").getD space, location⟩
  else none

namespace Registry

/-- A registry suppresses the built-in names of its own namespace. -/
theorem suppresses_iff (r : Registry) (builtins : Builtins) (d : Declaration) :
    r.suppresses builtins d = true ↔ d.IsBuiltin builtins r.targetSpace := by
  cases h : d.name with
  | none => simp [suppresses, Declaration.IsBuiltin, h]
  | some name =>
      simp only [suppresses, Declaration.IsBuiltin, h, Bool.and_eq_true, beq_iff_eq,
        Option.some.injEq, exists_eq_left']
      constructor
      · rintro ⟨hspace, hmem⟩
        exact ⟨hspace, hspace ▸ hmem⟩
      · rintro ⟨hspace, hmem⟩
        exact ⟨hspace, hspace ▸ hmem⟩

/-! ## filing one declaration -/

section

variable (r : Registry) (builtins : Builtins) (id : NodeId) (d : Declaration)

/-- A directive that is not built in is noted if it names a location. -/
theorem fileDeclaration_directive (hkind : d.kind = .inclusion ∨ d.kind = .importation)
    (hbuiltin : ¬ d.IsBuiltin builtins r.targetSpace) :
    (r.fileDeclaration builtins id d).1 =
      match d.directive? builtins r.targetSpace with
      | some reference => r.addReference reference
      | none => r := by
  have hsuppress : ¬ r.suppresses builtins d = true := by rwa [suppresses_iff]
  have hdirective : d.directive? builtins r.targetSpace = r.directiveReference? d := by
    rw [Declaration.directive?, if_pos ⟨hkind, hbuiltin⟩, directiveReference?]
  rw [fileDeclaration, if_neg hsuppress, hdirective]
  rcases hkind with hkind | hkind
  all_goals
    rw [hkind]
    cases r.directiveReference? d with
    | none => rfl
    | some reference => rfl

/-- Any other declaration that is not built in is filed if it has a bucket and
a name. -/
theorem fileDeclaration_named (hkind : ¬ (d.kind = .inclusion ∨ d.kind = .importation))
    (hbuiltin : ¬ d.IsBuiltin builtins r.targetSpace) :
    (r.fileDeclaration builtins id d).1 =
      match Bucket.ofKind? d.kind, d.name with
      | some b, some name => r.insert b name id
      | _, _ => r := by
  have hsuppress : ¬ r.suppresses builtins d = true := by rwa [suppresses_iff]
  rw [not_or] at hkind
  rw [fileDeclaration, if_neg hsuppress]
  split
  · next h => exact absurd h hkind.1
  · next h => exact absurd h hkind.2
  · cases Bucket.ofKind? d.kind with
    | none => rfl
    | some b =>
        cases d.name with
        | none => rfl
        | some name => rfl

/-- **Filing one declaration** puts it under a name, notes a reference, or
changes nothing. -/
theorem fileDeclaration_cases :
    (∃ b name, d.FiledUnder builtins r.targetSpace b name ∧
        d.directive? builtins r.targetSpace = none ∧
        (r.fileDeclaration builtins id d).1 = r.insert b name id) ∨
      (∃ reference, (∀ b name, ¬ d.FiledUnder builtins r.targetSpace b name) ∧
        d.directive? builtins r.targetSpace = some reference ∧
        (r.fileDeclaration builtins id d).1 = r.addReference reference) ∨
      (∀ b name, ¬ d.FiledUnder builtins r.targetSpace b name) ∧
        d.directive? builtins r.targetSpace = none ∧
        (r.fileDeclaration builtins id d).1 = r := by
  by_cases hbuiltin : d.IsBuiltin builtins r.targetSpace
  · have hsuppress := (suppresses_iff r builtins d).mpr hbuiltin
    refine .inr (.inr ⟨fun b name h => h.2.2 hbuiltin, ?_, ?_⟩)
    · rw [Declaration.directive?, if_neg fun h => h.2 hbuiltin]
    · rw [fileDeclaration, if_pos hsuppress]
  · by_cases hkind : d.kind = .inclusion ∨ d.kind = .importation
    · have hnone : ∀ b name, ¬ d.FiledUnder builtins r.targetSpace b name := by
        rintro b name ⟨hb, -⟩
        rcases hkind with hkind | hkind <;> (rw [hkind] at hb; cases b <;> contradiction)
      rw [fileDeclaration_directive r builtins id d hkind hbuiltin]
      cases hd : d.directive? builtins r.targetSpace with
      | none => exact .inr (.inr ⟨hnone, rfl, rfl⟩)
      | some reference => exact .inr (.inl ⟨reference, hnone, rfl, rfl⟩)
    · have hdirective : d.directive? builtins r.targetSpace = none := by
        rw [Declaration.directive?, if_neg fun h => hkind h.1]
      rw [fileDeclaration_named r builtins id d hkind hbuiltin]
      cases hb : Bucket.ofKind? d.kind with
      | none =>
          refine .inr (.inr ⟨?_, hdirective, rfl⟩)
          rintro b name ⟨hb', -⟩
          rw [Bucket.ofKind?_eq_some_iff.mpr hb'] at hb
          contradiction
      | some b =>
          cases hn : d.name with
          | none =>
              refine .inr (.inr ⟨?_, hdirective, rfl⟩)
              rintro b name ⟨-, hn', -⟩
              rw [hn] at hn'
              contradiction
          | some name =>
              exact .inl ⟨b, name, ⟨Bucket.ofKind?_eq_some_iff.mp hb, hn, hbuiltin⟩, hdirective, rfl⟩

/-- **What becomes of a declaration**, in the order in which it is asked:
whether it is built in, whether it is a directive, and whether it has a bucket
and a name. -/
theorem filing_fileDeclaration :
    (r.fileDeclaration builtins id d).2 =
      if d.IsBuiltin builtins r.targetSpace then .builtin
      else if d.kind = .inclusion ∨ d.kind = .importation then
        match d.directive? builtins r.targetSpace with
        | some reference => .reference reference
        | none => .missingLocation
      else match Bucket.ofKind? d.kind, d.name with
        | some b, some name => .declared b name (r.lookup b name)
        | _, _ => .ignored := by
  by_cases hbuiltin : d.IsBuiltin builtins r.targetSpace
  · rw [if_pos hbuiltin, fileDeclaration, if_pos ((suppresses_iff r builtins d).mpr hbuiltin)]
  · have hsuppress : ¬ r.suppresses builtins d = true := by rwa [suppresses_iff]
    rw [if_neg hbuiltin, fileDeclaration, if_neg hsuppress]
    by_cases hkind : d.kind = .inclusion ∨ d.kind = .importation
    · have hdirective : d.directive? builtins r.targetSpace = r.directiveReference? d := by
        rw [Declaration.directive?, if_pos ⟨hkind, hbuiltin⟩, directiveReference?]
      rw [if_pos hkind, hdirective]
      rcases hkind with hkind | hkind
      all_goals
        rw [hkind]
        cases r.directiveReference? d with
        | none => rfl
        | some reference => rfl
    · rw [if_neg hkind]
      rw [not_or] at hkind
      split
      · next h => exact absurd h hkind.1
      · next h => exact absurd h hkind.2
      · cases Bucket.ofKind? d.kind with
        | none => rfl
        | some b =>
            cases d.name with
            | none => rfl
            | some name => rfl

/-- A declaration that takes a name is filed over what the name led to. -/
theorem filing_of_filedUnder {b : Bucket} {name : String}
    (h : d.FiledUnder builtins r.targetSpace b name) :
    (r.fileDeclaration builtins id d).2 = .declared b name (r.lookup b name) := by
  obtain ⟨hbucket, hname, hbuiltin⟩ := h
  have hkind : ¬ (d.kind = .inclusion ∨ d.kind = .importation) := by
    rw [hbucket]
    cases b <;> decide
  rw [filing_fileDeclaration, if_neg hbuiltin, if_neg hkind, Bucket.ofKind?_eq_some_iff.mpr hbucket,
    hname]

/-- Filing touches neither the namespace nor the roots nor the prefixes. -/
theorem frame_fileDeclaration :
    (r.fileDeclaration builtins id d).1.targetSpace = r.targetSpace ∧
      (r.fileDeclaration builtins id d).1.roots = r.roots ∧
      (r.fileDeclaration builtins id d).1.prefixes = r.prefixes := by
  rcases fileDeclaration_cases r builtins id d with
    ⟨b, name, -, -, h⟩ | ⟨reference, -, -, h⟩ | ⟨-, -, h⟩ <;> rw [h]
  · exact ⟨rfl, rfl, rfl⟩
  · exact ⟨rfl, rfl, rfl⟩
  · exact ⟨rfl, rfl, rfl⟩

/-- Filing a declaration answers for its own name, and leaves the others as they were. -/
theorem lookup_fileDeclaration (b : Bucket) (name : String) :
    (r.fileDeclaration builtins id d).1.lookup b name =
      if d.FiledUnder builtins r.targetSpace b name then some id else r.lookup b name := by
  rcases fileDeclaration_cases r builtins id d with
    ⟨b', name', hfiled, -, h⟩ | ⟨reference, hnone, -, h⟩ | ⟨hnone, -, h⟩
  · rw [h, lookup_insert]
    have hiff : d.FiledUnder builtins r.targetSpace b name ↔ b = b' ∧ name = name' := by
      obtain ⟨hb, hn, hbuiltin⟩ := hfiled
      constructor
      · rintro ⟨hb', hn', -⟩
        exact ⟨Bucket.kind_injective (hb'.symm.trans hb), Option.some.inj (hn'.symm.trans hn)⟩
      · rintro ⟨rfl, rfl⟩
        exact ⟨hb, hn, hbuiltin⟩
    simp only [hiff]
  · rw [h, if_neg (hnone b name)]
    rfl
  · rw [h, if_neg (hnone b name)]

/-- Filing a directive appends its reference. -/
theorem externalReferences_fileDeclaration :
    (r.fileDeclaration builtins id d).1.externalReferences =
      r.externalReferences ++ (d.directive? builtins r.targetSpace).toList := by
  rcases fileDeclaration_cases r builtins id d with
    ⟨b, name, -, hd, h⟩ | ⟨reference, -, hd, h⟩ | ⟨-, hd, h⟩
  · rw [h, hd, Option.toList_none, List.append_nil]
    rfl
  · rw [h, hd]
    rfl
  · rw [h, hd, Option.toList_none, List.append_nil]

end

/-! ## filing many -/

/-- The registry after filing declarations in order. -/
def fileLooked (builtins : Builtins) (r : Registry) (ds : List (NodeId × Declaration)) : Registry :=
  ds.foldl (fun r p => (r.fileDeclaration builtins p.1 p.2).1) r

/-- What becomes of declarations that are filed in order. -/
def filingsLooked (builtins : Builtins) (r : Registry) :
    List (NodeId × Declaration) → List (NodeId × Filing)
  | [] => []
  | (id, d) :: ds =>
    (id, (r.fileDeclaration builtins id d).2) ::
      filingsLooked builtins (r.fileDeclaration builtins id d).1 ds

/-- Filing succeeds on nodes that exist only. -/
theorem fileAll_eq_ok {builtins : Builtins} {a : Arena} {r r' : Registry} {ids : List NodeId}
    {filings : List (NodeId × Filing)} (h : fileAll builtins a r ids = (r', .ok filings)) :
    (∀ id ∈ ids, a.Valid id) ∧ r' = fileLooked builtins r (a.look ids) ∧
      filings = filingsLooked builtins r (a.look ids) := by
  induction ids generalizing r filings with
  | nil =>
      simp only [fileAll, Prod.mk.injEq, Except.ok.injEq] at h
      exact ⟨by simp, h.1.symm, h.2.symm⟩
  | cons id ids ih =>
      cases hget : a.get? id with
      | none => simp [fileAll, file, hget] at h
      | some d =>
          cases hrest : fileAll builtins a (r.fileDeclaration builtins id d).1 ids with
          | mk r'' outcome =>
              cases outcome with
              | error e => simp [fileAll, file, hget, hrest, Except.map] at h
              | ok rest =>
                  simp only [fileAll, file, hget, hrest, Except.map, Prod.mk.injEq,
                    Except.ok.injEq] at h
                  obtain ⟨rfl, rfl⟩ := h
                  obtain ⟨hvalid, hr, hrest⟩ := ih hrest
                  rw [Arena.look_cons_some hget, filingsLooked, ← hrest, hr]
                  exact ⟨List.forall_mem_cons.mpr ⟨Arena.valid_iff.mpr ⟨d, hget⟩, hvalid⟩, rfl, rfl⟩

/-- Filing succeeds on nodes that exist. -/
theorem fileAll_of_valid (builtins : Builtins) {a : Arena} (r : Registry) {ids : List NodeId}
    (h : ∀ id ∈ ids, a.Valid id) :
    fileAll builtins a r ids =
      (fileLooked builtins r (a.look ids), .ok (filingsLooked builtins r (a.look ids))) := by
  induction ids generalizing r with
  | nil => rfl
  | cons id ids ih =>
      rw [List.forall_mem_cons] at h
      obtain ⟨d, hget⟩ := Arena.valid_iff.mp h.1
      simp only [fileAll, file, hget, ih _ h.2, Except.map, Arena.look_cons_some hget,
        filingsLooked]
      rfl

section

variable (builtins : Builtins) (r : Registry) (ds : List (NodeId × Declaration))

/-- Filing changes neither the namespace nor the roots nor the prefixes. -/
theorem frame_fileLooked :
    (fileLooked builtins r ds).targetSpace = r.targetSpace ∧
      (fileLooked builtins r ds).roots = r.roots ∧
      (fileLooked builtins r ds).prefixes = r.prefixes := by
  induction ds generalizing r with
  | nil => exact ⟨rfl, rfl, rfl⟩
  | cons p ds ih =>
      obtain ⟨hspace, hroots, hprefixes⟩ := frame_fileDeclaration r builtins p.1 p.2
      obtain ⟨hspace', hroots', hprefixes'⟩ := ih (r.fileDeclaration builtins p.1 p.2).1
      exact ⟨hspace'.trans hspace, hroots'.trans hroots, hprefixes'.trans hprefixes⟩

/-- **The last one wins**: a name leads to the last declaration filed under it,
else to what it led to before. -/
theorem lookup_fileLooked (b : Bucket) (name : String) :
    (fileLooked builtins r ds).lookup b name =
      (((ds.filter fun p => p.2.FiledUnder builtins r.targetSpace b name).getLast?).map (·.1)).or
        (r.lookup b name) := by
  induction ds generalizing r with
  | nil => rfl
  | cons p ds ih =>
      have hspace := (frame_fileDeclaration r builtins p.1 p.2).1
      rw [fileLooked, List.foldl_cons, ← fileLooked, ih, hspace, lookup_fileDeclaration]
      by_cases hp : p.2.FiledUnder builtins r.targetSpace b name
      · rw [if_pos hp, List.filter_cons_of_pos (by simpa using hp), List.getLast?_cons]
        cases (ds.filter fun p => p.2.FiledUnder builtins r.targetSpace b name).getLast? with
        | none => rfl
        | some q => rfl
      · rw [if_neg hp, List.filter_cons_of_neg (by simpa using hp)]

/-- Each declaration is filed into a registry of the same namespace. -/
theorem exists_of_mem_filingsLooked {p : NodeId × Filing} (h : p ∈ filingsLooked builtins r ds) :
    ∃ (d : Declaration) (r' : Registry), (p.1, d) ∈ ds ∧ r'.targetSpace = r.targetSpace ∧
      p.2 = (r'.fileDeclaration builtins p.1 d).2 := by
  induction ds generalizing r with
  | nil => simp [filingsLooked] at h
  | cons q ds ih =>
      rw [filingsLooked, List.mem_cons] at h
      rcases h with rfl | h
      · exact ⟨q.2, r, List.mem_cons_self, rfl, rfl⟩
      · obtain ⟨d, r', hmem, hspace, hfiling⟩ := ih _ h
        have hframe := (frame_fileDeclaration r builtins q.1 q.2).1
        exact ⟨d, r', List.mem_cons_of_mem _ hmem, hspace.trans hframe, hfiling⟩

/-- Each declaration has its filing. -/
theorem exists_filing_of_mem {p : NodeId × Declaration} (h : p ∈ ds) :
    ∃ filing, (p.1, filing) ∈ filingsLooked builtins r ds := by
  induction ds generalizing r with
  | nil => simp at h
  | cons q ds ih =>
      rcases List.mem_cons.mp h with rfl | h
      · exact ⟨_, List.mem_cons_self⟩
      · obtain ⟨filing, hfiling⟩ := ih (r.fileDeclaration builtins q.1 q.2).1 h
        exact ⟨filing, List.mem_cons_of_mem _ hfiling⟩

/-- A name that some declaration takes can be looked up. -/
theorem lookup_fileLooked_ne_none {p : NodeId × Declaration} (h : p ∈ ds) {b : Bucket}
    {name : String} (hfiled : p.2.FiledUnder builtins r.targetSpace b name) :
    (fileLooked builtins r ds).lookup b name ≠ none := by
  have hmem : p ∈ ds.filter fun p => p.2.FiledUnder builtins r.targetSpace b name :=
    List.mem_filter.mpr ⟨h, decide_eq_true hfiled⟩
  rw [lookup_fileLooked, List.getLast?_eq_some_getLast (List.ne_nil_of_mem hmem), Option.map_some,
    Option.some_or]
  exact Option.some_ne_none _

/-- Before anything is filed nothing can be looked up. -/
theorem lookup_ofRoot (root : NodeId) (d : Declaration) (b : Bucket) (name : String) :
    (ofRoot root d).lookup b name = none := by
  cases b <;> rfl

/-- What can be looked up in the registry of a document is filed there. -/
theorem mem_of_lookup_fileLooked {root id : NodeId} {d : Declaration} {b : Bucket} {name : String}
    (h : (fileLooked builtins (ofRoot root d) ds).lookup b name = some id) :
    ∃ e, (id, e) ∈ ds ∧ e.FiledUnder builtins (targetSpaceOf d) b name := by
  rw [lookup_fileLooked, lookup_ofRoot, Option.or_none, Option.map_eq_some_iff] at h
  obtain ⟨⟨q, e⟩, hlast, rfl⟩ := h
  have hmem := List.mem_of_getLast? hlast
  rw [List.mem_filter, decide_eq_true_eq] at hmem
  exact ⟨e, hmem⟩

/-- The references asked for stand behind those that were there. -/
theorem externalReferences_fileLooked :
    (fileLooked builtins r ds).externalReferences =
      r.externalReferences ++ ds.filterMap fun p => p.2.directive? builtins r.targetSpace := by
  induction ds generalizing r with
  | nil => rw [fileLooked, List.foldl_nil, List.filterMap_nil, List.append_nil]
  | cons p ds ih =>
      have hspace := (frame_fileDeclaration r builtins p.1 p.2).1
      rw [fileLooked, List.foldl_cons, ← fileLooked, ih, hspace,
        externalReferences_fileDeclaration, List.append_assoc]
      cases hd : p.2.directive? builtins r.targetSpace with
      | none => simp [hd]
      | some reference => simp [hd]

end

end Registry

end SchemaCatalog
