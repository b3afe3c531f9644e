import Mathlib.Data.List.Basic
import SchemaCatalog.Proofs.Registry.Filing
import SchemaCatalog.Proofs.Registry.Merge
import SchemaCatalog.Proofs.Renumbering.Arena
import SchemaCatalog.Proofs.Table

/-!
# SchemaCatalog.Proofs.Renumbering.Registry

Registries with other numbers for their nodes.  Names, references and prefixes have
nothing to do with numbers, so filing a declaration and merging registries come to
the same under any numbers, as long as no two nodes get the same one
(`fileAll_renumber`, `mergeWith_renumber`).

A registry whose nodes all exist (`Registry.Within`) takes no notice of the numbers
of nodes still to come (`Within.renumber_congr`).
-/

namespace SchemaCatalog

/-- What became of a declaration, with another number for the node that it has
replaced. -/
def Filing.renumber (f : NodeId → NodeId) : Filing → Filing
  | declared bucket name replaced => declared bucket name (replaced.map f)
  | reference e => reference e
  | missingLocation => missingLocation
  | builtin => builtin
  | ignored => ignored

namespace Registry

def renumber (f : NodeId → NodeId) (r : Registry) : Registry :=
  { r with
    roots := r.roots.map f
    declarations := .ofFn fun b => (r.bucket b).mapValues f }

section

variable (f : NodeId → NodeId) (r : Registry)

theorem bucket_renumber (b : Bucket) : (r.renumber f).bucket b = (r.bucket b).mapValues f :=
  PerBucket.get_ofFn _ b

/-- A renumbered registry answers with the renumbered node. -/
theorem lookup_renumber (b : Bucket) (name : String) :
    (r.renumber f).lookup b name = (r.lookup b name).map f := by
  rw [lookup, bucket_renumber, Table.get?_mapValues, lookup]

/-- The roots of a renumbered registry are the renumbered roots. -/
theorem mem_roots_renumber {f : NodeId → NodeId} (hf : Function.Injective f) {r : Registry}
    {id : NodeId} : f id ∈ (r.renumber f).roots ↔ id ∈ r.roots :=
  List.mem_map_of_injective hf

/-- Registries with the same buckets, and the same of everything else. -/
theorem ext_buckets {r q : Registry} (hspace : r.targetSpace = q.targetSpace)
    (hroots : r.roots = q.roots) (hprefixes : r.prefixes = q.prefixes)
    (hreferences : r.externalReferences = q.externalReferences)
    (hbuckets : ∀ b, r.bucket b = q.bucket b) : r = q := by
  cases r
  cases q
  cases hspace
  cases hroots
  cases hprefixes
  cases hreferences
  exact congrArg (fun p => Registry.mk _ _ _ p _) (PerBucket.ext hbuckets)

/-! ## filing -/

/-- Inserting a name commutes with the renumbering. -/
theorem insert_renumber (b : Bucket) (name : String) (id : NodeId) :
    (r.renumber f).insert b name (f id) = (r.insert b name id).renumber f := by
  refine ext_buckets rfl rfl rfl rfl fun c => ?_
  rw [bucket_renumber]
  simp only [insert, bucket, PerBucket.get_set]
  have hsame : (r.renumber f).declarations.get c = (r.declarations.get c).mapValues f :=
    bucket_renumber f r c
  by_cases hc : c = b
  · subst hc
    rw [if_pos rfl, if_pos rfl, hsame, Table.insert_mapValues]
  · rw [if_neg hc, if_neg hc, hsame]

/-- Filing a declaration commutes with the renumbering. -/
theorem fileDeclaration_renumber (builtins : Builtins) (id : NodeId) (d : Declaration) :
    (r.renumber f).fileDeclaration builtins (f id) (d.renumber f) =
      ((r.fileDeclaration builtins id d).1.renumber f,
        (r.fileDeclaration builtins id d).2.renumber f) := by
  have hsuppress : (r.renumber f).suppresses builtins (d.renumber f) = r.suppresses builtins d := rfl
  have hreference : (r.renumber f).directiveReference? (d.renumber f) = r.directiveReference? d := rfl
  have hkind : (d.renumber f).kind = d.kind := rfl
  have hname : (d.renumber f).name = d.name := rfl
  simp only [fileDeclaration, hsuppress, hreference, hkind, hname]
  by_cases hs : r.suppresses builtins d
  · simp only [if_pos hs, Filing.renumber]
  · simp only [if_neg hs]
    split
    · cases r.directiveReference? d with
      | none => rfl
      | some reference => rfl
    · cases r.directiveReference? d with
      | none => rfl
      | some reference => rfl
    · cases Bucket.ofKind? d.kind with
      | none => rfl
      | some b =>
          cases d.name with
          | none => rfl
          | some name =>
              simp only [insert_renumber, lookup_renumber]
              rfl

/-- **Children are filed** in the same way under any numbers. -/
theorem fileAll_renumber {f : NodeId → NodeId} {a a' : Arena} (h : a.Hosts f a')
    (builtins : Builtins) (r : Registry) (ids : List NodeId) :
    fileAll builtins a' (r.renumber f) (ids.map f) =
      ((fileAll builtins a r ids).1.renumber f,
        translate f (List.map (Prod.map f (Filing.renumber f))) (fileAll builtins a r ids).2) := by
  induction ids generalizing r with
  | nil => rfl
  | cons id ids ih =>
      simp only [List.map_cons, fileAll, file, h.get?]
      cases a.get? id with
      | none => rfl
      | some d =>
          simp only [Option.map_some, fileDeclaration_renumber, ih]
          cases (fileAll builtins a (r.fileDeclaration builtins id d).1 ids).2 with
          | error e => rfl
          | ok filings => rfl

end

theorem ofRoot_renumber (f : NodeId → NodeId) (root : NodeId) (d : Declaration) :
    ofRoot (f root) (d.renumber f) = (ofRoot root d).renumber f := by
  refine ext_buckets rfl rfl rfl rfl fun b => ?_
  rw [bucket_renumber]
  cases b <;> rfl

/-! ## merging -/

section

variable {f : NodeId → NodeId} (hf : Function.Injective f)

/-- Laying tables over one another commutes with the renumbering. -/
theorem overlay_mapValues (f : NodeId → NodeId) (target source : Table String NodeId) :
    overlay (target.mapValues f) (source.mapValues f) = (overlay target source).mapValues f := by
  refine Table.ext_get? fun name => ?_
  simp only [get?_overlay, Table.get?_mapValues]
  cases source.get? name with
  | none => rfl
  | some id => rfl

/-- The names that two tables share do not depend on the numbering. -/
theorem sharedNames_mapValues (f : NodeId → NodeId) (target source : Table String NodeId) :
    sharedNames (target.mapValues f) (source.mapValues f) = sharedNames target source := by
  have hcontains : (target.mapValues f).contains = target.contains :=
    funext (Table.contains_mapValues f target)
  rw [sharedNames, sharedNames, Table.keys_mapValues, hcontains]

include hf

/-- Joining roots commutes with the renumbering. -/
theorem joinRoots_map (roots more : List NodeId) :
    joinRoots (roots.map f) (more.map f) = (joinRoots roots more).map f := by
  induction more generalizing roots with
  | nil => rfl
  | cons root more ih =>
      rw [List.map_cons, joinRoots, joinRoots, List.foldl_cons, List.foldl_cons, ← joinRoots,
        ← joinRoots, ← ih]
      by_cases hroot : root ∈ roots
      · rw [if_pos hroot, if_pos (List.mem_map_of_mem hroot)]
      · rw [if_neg hroot, if_neg (mt (List.mem_map_of_injective hf).mp hroot), List.map_append]
        rfl

/-- Absorbing commutes with the renumbering. -/
theorem absorb_renumber (dedup : Bool) (target source : Registry) :
    (target.renumber f).absorb dedup (source.renumber f) =
      (target.absorb dedup source).renumber f := by
  refine ext_buckets rfl ?_ rfl rfl fun b => ?_
  · exact joinRoots_map hf target.roots source.roots
  · rw [bucket_renumber, absorb, absorb, bucket, bucket, PerBucket.get_ofFn, PerBucket.get_ofFn,
      bucket_renumber, bucket_renumber, overlay_mapValues]

/-- **Registries are merged** in the same way under any numbers, with the same
report. -/
theorem mergeWith_renumber (dedup : Bool) (target source : Registry) :
    (target.renumber f).mergeWith dedup (source.renumber f) =
      ((target.mergeWith dedup source).1.renumber f, (target.mergeWith dedup source).2) := by
  have hreport : absorbReport dedup (target.renumber f) (source.renumber f) =
      absorbReport dedup target source := by
    simp only [absorbReport, bucket_renumber, sharedNames_mapValues, Table.keys_mapValues,
      Table.contains_mapValues]
    rfl
  simp only [mergeWith]
  by_cases hspace : target.targetSpace = source.targetSpace
  · have hspace' : (target.renumber f).targetSpace = (source.renumber f).targetSpace := hspace
    rw [if_pos hspace, if_pos hspace', absorb_renumber hf, hreport]
  · have hspace' : ¬ (target.renumber f).targetSpace = (source.renumber f).targetSpace := hspace
    rw [if_neg hspace, if_neg hspace']

end

/-! ## registries of existing nodes -/

/-- All roots and entries of a registry are declarations of `a`. -/
structure Within (a : Arena) (r : Registry) : Prop where
  roots : ∀ root ∈ r.roots, a.Valid root
  entries : ∀ b name id, r.lookup b name = some id → a.Valid id

section

variable {a : Arena} {r : Registry}

/-- A registry within an arena is within every larger one. -/
theorem Within.mono (h : r.Within a) {b : Arena} (hsize : a.size ≤ b.size) : r.Within b where
  roots := fun root hroot => Nat.lt_of_lt_of_le (h.roots root hroot) hsize
  entries := fun bucket name id hid => Nat.lt_of_lt_of_le (h.entries bucket name id hid) hsize

/-- Numbers of nodes still to come do not matter. -/
theorem Within.renumber_congr (h : r.Within a) {f g : NodeId → NodeId}
    (hfg : ∀ id, a.Valid id → f id = g id) : r.renumber f = r.renumber g := by
  refine ext_buckets rfl ?_ rfl rfl fun b => ?_
  · exact List.map_congr_left fun root hroot => hfg root (h.roots root hroot)
  · rw [bucket_renumber, bucket_renumber]
    exact Table.mapValues_congr f (r.bucket b) fun name id hid => hfg id (h.entries b name id hid)

/-- The registry of a document is one of existing nodes. -/
theorem within_fileLooked (builtins : Builtins) {root : NodeId} {d : Declaration}
    (hroot : a.get? root = some d) :
    (fileLooked builtins (ofRoot root d) (a.look d.children)).Within a where
  roots := by
    obtain ⟨-, hroots, -⟩ := frame_fileLooked builtins (ofRoot root d) (a.look d.children)
    intro q hq
    rw [hroots] at hq
    rw [List.mem_singleton.mp hq]
    exact Arena.valid_iff.mpr ⟨d, hroot⟩
  entries := by
    intro b name id hid
    obtain ⟨e, hmem, -⟩ := mem_of_lookup_fileLooked builtins _ hid
    exact Arena.valid_iff.mpr ⟨e, (Arena.mem_look.mp hmem).2⟩

/-- So is what comes of merging two such registries. -/
theorem Within.mergeWith {source : Registry} (h : r.Within a) (hsource : source.Within a)
    (dedup : Bool) : (r.mergeWith dedup source).1.Within a := by
  rw [Registry.mergeWith]
  split
  · constructor
    · intro root hroot
      rcases mem_joinRoots.mp hroot with hroot | hroot
      · exact h.roots root hroot
      · exact hsource.roots root hroot
    · intro b name id hid
      rw [lookup_absorb, Option.or_eq_some_iff] at hid
      rcases hid with hid | ⟨-, hid⟩
      · exact hsource.entries b name id hid
      · exact h.entries b name id hid
  · exact h

end

end Registry

end SchemaCatalog
