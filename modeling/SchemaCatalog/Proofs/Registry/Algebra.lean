import SchemaCatalog.Proofs.Registry.Merge

/-!
# SchemaCatalog.Proofs.Registry.Algebra

Merging as an operation on the registries of one namespace.  Its parts follow
different rules: in a bucket the source's entry stays, of the prefixes the
target's, and roots and references are appended if they are new.  Each rule is
associative by itself, and so is the merge (`absorb_assoc`).

A registry that has absorbed another one *holds* it (`Holds`): its names are
there with the same nodes, and so are its roots and references.  Absorbing what
is held changes nothing (`Holds.absorb_eq`) and is reported as such
(`Holds.absorbReport_eq`); that merges without repetition are idempotent comes
down to this.
-/

namespace SchemaCatalog

/-! ## appending what is new -/

section

variable {α : Type} [DecidableEq α]

/-- Appends the elements that are not there yet, each once. -/
def appendNew (xs ys : List α) : List α :=
  ys.foldl (fun xs y => if y ∈ xs then xs else xs ++ [y]) xs

theorem appendNew_cons (xs : List α) (y : α) (ys : List α) :
    appendNew xs (y :: ys) = appendNew (if y ∈ xs then xs else xs ++ [y]) ys := rfl

/-- Appending one more element appends it if it is new. -/
theorem appendNew_concat (xs ys : List α) (y : α) :
    appendNew xs (ys ++ [y]) =
      if y ∈ appendNew xs ys then appendNew xs ys else appendNew xs ys ++ [y] := by
  rw [appendNew, List.foldl_append]
  rfl

/-- What is appended is what was there and what is new. -/
theorem mem_appendNew {xs ys : List α} {x : α} : x ∈ appendNew xs ys ↔ x ∈ xs ∨ x ∈ ys := by
  induction ys generalizing xs with
  | nil => simp [appendNew]
  | cons y ys ih =>
      rw [appendNew_cons, ih]
      by_cases hy : y ∈ xs
      · rw [if_pos hy, List.mem_cons]
        refine ⟨fun h => h.imp_right .inr, ?_⟩
        rintro (hx | rfl | hx)
        · exact .inl hx
        · exact .inl hy
        · exact .inr hx
      · rw [if_neg hy, List.mem_append, List.mem_singleton, List.mem_cons, or_assoc]

/-- Appending what is there changes nothing. -/
theorem appendNew_of_subset {xs ys : List α} (h : ys ⊆ xs) : appendNew xs ys = xs := by
  induction ys with
  | nil => rfl
  | cons y ys ih =>
      obtain ⟨hy, hys⟩ := List.cons_subset.mp h
      rw [appendNew_cons, if_pos hy, ih hys]

/-- Appending what is new is associative. -/
theorem appendNew_assoc (xs ys zs : List α) :
    appendNew (appendNew xs ys) zs = appendNew xs (appendNew ys zs) := by
  induction zs generalizing ys with
  | nil => rfl
  | cons z zs ih =>
      rw [appendNew_cons ys, ← ih, appendNew_cons]
      congr 1
      -- one more element comes in behind `xs` as it comes in behind `ys`
      by_cases hz : z ∈ ys
      · rw [if_pos hz, if_pos (mem_appendNew.mpr (.inr hz))]
      · rw [if_neg hz, appendNew_concat]

end

namespace Registry

/-! ## the parts of a merge -/

theorem roots_absorb (dedup : Bool) (target source : Registry) :
    (absorb dedup target source).roots = appendNew target.roots source.roots := rfl

/-- Which references are fresh depends only on which ones have been seen. -/
theorem append_freshReferences {seen xs : List ExternalReference} (h : ∀ r, r ∈ seen ↔ r ∈ xs)
    (refs : List ExternalReference) : xs ++ freshReferences seen refs = appendNew xs refs := by
  induction refs generalizing seen xs with
  | nil => rw [freshReferences, List.append_nil]; rfl
  | cons r refs ih =>
      rw [freshReferences, appendNew_cons]
      by_cases hr : r ∈ seen
      · rw [if_pos hr, if_pos ((h r).mp hr), ih h]
      · have hmore : ∀ q, q ∈ r :: seen ↔ q ∈ xs ++ [r] := by
          intro q
          rw [List.mem_cons, List.mem_append, List.mem_singleton, h q, or_comm]
        rw [if_neg hr, if_neg (mt (h r).mpr hr), ← ih hmore, List.append_assoc,
          List.singleton_append]

def joinReferences (dedup : Bool) (refs more : List ExternalReference) : List ExternalReference :=
  if dedup then appendNew refs more else refs ++ more

/-- Absorbing joins the external references. -/
theorem externalReferences_absorb (dedup : Bool) (target source : Registry) :
    (absorb dedup target source).externalReferences =
      joinReferences dedup target.externalReferences source.externalReferences := by
  cases dedup with
  | false => rfl
  | true => exact append_freshReferences (fun _ => Iff.rfl) source.externalReferences

/-- Joining references is associative, with repetitions or without. -/
theorem joinReferences_assoc (dedup : Bool) (xs ys zs : List ExternalReference) :
    joinReferences dedup (joinReferences dedup xs ys) zs =
      joinReferences dedup xs (joinReferences dedup ys zs) := by
  cases dedup with
  | false => exact List.append_assoc xs ys zs
  | true => exact appendNew_assoc xs ys zs

/-- Absorbing lays each bucket of the source over that of the target. -/
theorem bucket_absorb (dedup : Bool) (target source : Registry) (b : Bucket) :
    (absorb dedup target source).bucket b = overlay (target.bucket b) (source.bucket b) :=
  PerBucket.get_ofFn _ b

/-- Laying tables over one another is associative. -/
theorem overlay_assoc (s t u : Table String NodeId) :
    overlay (overlay s t) u = overlay s (overlay t u) := by
  refine Table.ext_get? fun name => ?_
  simp only [get?_overlay, Option.or_assoc]

/-- A registry is made up of its parts. -/
theorem ext_parts {r s : Registry} (hspace : r.targetSpace = s.targetSpace)
    (hroots : r.roots = s.roots) (hprefixes : r.prefixes = s.prefixes)
    (hbuckets : ∀ b, r.bucket b = s.bucket b)
    (hreferences : r.externalReferences = s.externalReferences) : r = s := by
  obtain ⟨space, roots, prefixes, declarations, references⟩ := r
  obtain ⟨space', roots', prefixes', declarations', references'⟩ := s
  obtain rfl : declarations = declarations' := PerBucket.ext hbuckets
  cases hspace
  cases hroots
  cases hprefixes
  cases hreferences
  rfl

/-- **Absorbing is associative**, with and without repeated references. -/
theorem absorb_assoc (dedup : Bool) (a b c : Registry) :
    absorb dedup (absorb dedup a b) c = absorb dedup a (absorb dedup b c) := by
  refine ext_parts rfl ?_ rfl (fun bucket => ?_) ?_
  · simp only [roots_absorb, appendNew_assoc]
  · simp only [bucket_absorb, overlay_assoc]
  · simp only [externalReferences_absorb, joinReferences_assoc]

/-! ## absorbing what is held already -/

/-- `r` has all that `s` has to offer: its names with the same nodes, its roots
and its references. -/
structure Holds (r s : Registry) : Prop where
  lookup : ∀ b name id, s.lookup b name = some id → r.lookup b name = some id
  roots : s.roots ⊆ r.roots
  references : s.externalReferences ⊆ r.externalReferences

theorem Holds.refl (r : Registry) : r.Holds r where
  lookup := fun _ _ _ h => h
  roots := List.Subset.refl _
  references := List.Subset.refl _

/-- What was absorbed is held. -/
theorem holds_absorb (target source : Registry) : (absorb true target source).Holds source where
  lookup := fun b name id h => by rw [lookup_absorb, h, Option.some_or]
  roots := fun _ hid => mem_appendNew.mpr (.inr hid)
  references := fun r hr => by
    rw [externalReferences_absorb]
    exact mem_appendNew.mpr (.inr hr)

/-- All names of a registry, in bucket order and then by name. -/
def names (r : Registry) : List (Bucket × String) :=
  Bucket.all.flatMap fun b => (r.bucket b).keys.map fun name => (b, name)

section

variable {r s : Registry}

/-- A registry that holds another has its names. -/
theorem Holds.contains (h : r.Holds s) {b : Bucket} {name : String}
    (hname : name ∈ (s.bucket b).keys) : (r.bucket b).contains name = true := by
  obtain ⟨⟨key, id⟩, he, rfl⟩ := List.mem_map.mp hname
  have hlookup : (r.bucket b).get? key = some id :=
    h.lookup b key id ((s.bucket b).mem_entries_iff.mp he)
  rw [Table.contains, hlookup, Option.isSome_some]

/-- Nothing is appended to a registry that holds the other. -/
theorem Holds.appendedReferences_eq (h : r.Holds s) : appendedReferences true r s = [] := by
  have hjoin : r.externalReferences ++ appendedReferences true r s =
      appendNew r.externalReferences s.externalReferences :=
    append_freshReferences (fun _ => Iff.rfl) _
  rw [appendNew_of_subset h.references] at hjoin
  exact List.append_right_eq_self.mp hjoin

/-- **Absorbing what is held** changes nothing. -/
theorem Holds.absorb_eq (h : r.Holds s) : absorb true r s = r := by
  refine ext_parts rfl ?_ rfl (fun b => ?_) ?_
  · rw [roots_absorb, appendNew_of_subset h.roots]
  · rw [bucket_absorb]
    refine Table.ext_get? fun name => ?_
    rw [get?_overlay]
    cases hname : (s.bucket b).get? name with
    | none => rfl
    | some id => exact (h.lookup b name id hname).symm
  · rw [externalReferences_absorb]
    exact appendNew_of_subset h.references

/-- It is reported as a redefinition of all its names, and as nothing else. -/
theorem Holds.absorbReport_eq (h : r.Holds s) :
    absorbReport true r s = { merged := true, redefined := s.names } := by
  have hshared : ∀ b, sharedNames (r.bucket b) (s.bucket b) = (s.bucket b).keys :=
    fun b => List.filter_eq_self.mpr fun _ hname => h.contains hname
  have hnew : ∀ b, (s.bucket b).keys.filter (! (r.bucket b).contains ·) = [] := by
    intro b
    refine List.filter_eq_nil_iff.mpr fun name hname => ?_
    rw [h.contains hname]
    exact Bool.false_ne_true
  have hadded : (Bucket.all.flatMap fun b =>
      (s.bucket b).keys.filter (! (r.bucket b).contains ·)) = [] :=
    List.flatMap_eq_nil_iff.mpr fun b _ => hnew b
  simp only [absorbReport, hshared, hadded, h.appendedReferences_eq, names, List.length_nil]

end

/-! ## merging -/

/-- Registries of one namespace are merged by absorbing. -/
theorem mergeWith_of_eq (dedup : Bool) {target source : Registry}
    (h : target.targetSpace = source.targetSpace) :
    mergeWith dedup target source =
      (absorb dedup target source, absorbReport dedup target source) := by
  rw [mergeWith, if_pos h]

/-- **The algebra of merging.**  Registries of one namespace can be merged in any
grouping, whether or not repeated references are left out: buckets, roots,
prefixes and references come out the same.  If repeated references are left
out, then merging a registry once more, or with itself, changes nothing, and
the report lists all its names as redefined and nothing as added. -/
theorem mergeWith_algebra {a b c : Registry} (hab : a.targetSpace = b.targetSpace)
    (hbc : b.targetSpace = c.targetSpace) :
    (∀ dedup, (mergeWith dedup (mergeWith dedup a b).1 c).1 =
      (mergeWith dedup a (mergeWith dedup b c).1).1) ∧
    mergeWith true (merge a b) b =
      (merge a b, { merged := true, redefined := b.names, added := 0, referencesAdded := 0 }) ∧
    mergeWith true a a =
      (a, { merged := true, redefined := a.names, added := 0, referencesAdded := 0 }) := by
  have hmerge : merge a b = absorb true a b := by rw [merge, mergeWith_of_eq true hab]
  refine ⟨fun dedup => ?_, ?_, ?_⟩
  · have hleft : (absorb dedup a b).targetSpace = c.targetSpace := hab.trans hbc
    have hright : a.targetSpace = (absorb dedup b c).targetSpace := hab
    rw [mergeWith_of_eq dedup hab, mergeWith_of_eq dedup hbc, mergeWith_of_eq dedup hleft,
      mergeWith_of_eq dedup hright, absorb_assoc]
  · have hspace : (absorb true a b).targetSpace = b.targetSpace := hab
    have hholds := holds_absorb a b
    rw [hmerge, mergeWith_of_eq true hspace, hholds.absorb_eq, hholds.absorbReport_eq]
  · rw [mergeWith_of_eq true rfl, (Holds.refl a).absorb_eq, (Holds.refl a).absorbReport_eq]

/-- The registry of a document with one element of a common name, and with
references to some locations. -/
def sharing (root node : Nat) (locations : List String) : Registry where
  targetSpace := "urn:a"
  roots := [⟨root⟩]
  declarations := (PerBucket.fill ∅).set .elements (.ofList [("item", ⟨node⟩)])
  externalReferences := locations.map fun location => { space := "urn:b", location }

/-- Three such registries that repeat references, each its own and the others'. -/
theorem mergeWith_algebra_sharing : ∃ a b c : Registry,
    a.targetSpace = b.targetSpace ∧ b.targetSpace = c.targetSpace ∧
    a.externalReferences.map (·.location) = ["x.xsd", "x.xsd"] ∧
    b.externalReferences.map (·.location) = ["y.xsd", "x.xsd", "y.xsd"] ∧
    (mergeWith true (mergeWith true a b).1 c).1 = (mergeWith true a (mergeWith true b c).1).1 ∧
    (merge (merge a b) c).externalReferences.map (·.location) =
      ["x.xsd", "x.xsd", "y.xsd", "z.xsd"] ∧
    (mergeWith true (merge a b) b).2.redefined = [(.elements, "item")] := by
  let a := sharing 0 1 ["x.xsd", "x.xsd"]
  let b := sharing 2 3 ["y.xsd", "x.xsd", "y.xsd"]
  let c := sharing 4 5 ["z.xsd", "y.xsd"]
  obtain ⟨hassoc, hagain, -⟩ := @mergeWith_algebra a b c rfl rfl
  refine ⟨a, b, c, rfl, rfl, rfl, rfl, hassoc true, by decide +kernel, ?_⟩
  rw [hagain]
  decide +kernel

end Registry

end SchemaCatalog
