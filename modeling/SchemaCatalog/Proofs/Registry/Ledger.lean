import Mathlib.Algebra.BigOperators.Group.List.Basic
import Mathlib.Algebra.GroupWithZero.Nat
import Mathlib.Data.List.Nodup
import SchemaCatalog.Proofs.Registry.Filing
import SchemaCatalog.Proofs.Registry.Merge

/-!
# SchemaCatalog.Proofs.Registry.Ledger

Nothing is overwritten in a registry without a trace.  A declaration can be put
over another one in two ways, by filing a second child of the same name and by
merging a registry that has the name too, and each leaves a trace of its own:
the outcome of the filing says what was replaced, and the report of the merge
lists the names that both had.

A `Ledger` keeps, for one name in one bucket, the nodes that were put over
another one, next to what stands there now and to the number of nodes that were
put there.  It is carried on by filing (`ledger_fileLooked`) and by merging
(`Ledger.join`, with `filter_redefined` for the report).  The sums over all
names are kept in the same way (`size_fileLooked`, `size_absorb`).
-/

namespace SchemaCatalog

namespace Filing

/-- Was the declaration filed under this name? -/
def files (b : Bucket) (name : String) : Filing → Bool
  | declared b' name' _ => b' = b ∧ name' = name
  | _ => false

def declares : Filing → Bool
  | declared _ _ _ => true
  | _ => false

def replaces : Filing → Bool
  | declared _ _ replaced => replaced.isSome
  | _ => false

section

variable (b b' : Bucket) (name name' : String) (replaced : Option NodeId)

@[simp] theorem files_declared :
    (declared b' name' replaced).files b name = decide (b' = b ∧ name' = name) := rfl

@[simp] theorem declares_declared : (declared b name replaced).declares = true := rfl

@[simp] theorem replaces_declared :
    (declared b name replaced).replaces = replaced.isSome := rfl

end

/-- Only a declaration can replace one. -/
theorem replaces_eq_false {f : Filing} (h : f.declares = false) : f.replaces = false := by
  cases f with
  | declared b name replaced => contradiction
  | reference reference => rfl
  | missingLocation => rfl
  | builtin => rfl
  | ignored => rfl

end Filing

/-! ## the ledger of one name -/

/-- In a place that `k` nodes were put in, `above` are those that were put over
another one, and `entry` is what stands there now. -/
structure Ledger (above : List NodeId) (entry : Option NodeId) (k : Nat) : Prop where
  count : above.length + entry.toList.length = k
  last : ∀ id, above.getLast? = some id → entry = some id

namespace Ledger

theorem nil : Ledger [] none 0 where
  count := rfl
  last := by
    intro id h
    contradiction

/-- Where nothing stands, nothing was put over anything. -/
theorem eq_nil {above : List NodeId} {k : Nat} (h : Ledger above none k) : above = [] := by
  rw [← List.getLast?_eq_none_iff]
  cases hlast : above.getLast? with
  | none => rfl
  | some id => exact absurd (h.last id hlast) (by simp)

/-- All but the first were put over another one. -/
theorem length_above {above : List NodeId} {entry : Option NodeId} {k : Nat}
    (h : Ledger above entry k) : above.length = k - 1 := by
  have hcount := h.count
  cases entry with
  | none =>
      obtain rfl := h.eq_nil
      simp only [List.length_nil, Option.toList_none] at hcount ⊢
      omega
  | some id =>
      simp only [Option.toList_some, List.length_singleton] at hcount
      omega

/-- The last that was put over another one is what stands there now. -/
theorem exists_last {above : List NodeId} {entry : Option NodeId} {k : Nat}
    (h : Ledger above entry k) (hk : 1 < k) :
    ∃ id, entry = some id ∧ above.getLast? = some id := by
  have hne : above ≠ [] := by
    have hlength := h.length_above
    rintro rfl
    rw [List.length_nil] at hlength
    omega
  have hlast := List.getLast?_eq_some_getLast hne
  exact ⟨_, h.last _ hlast, hlast⟩

/-- One more node is put in. -/
theorem file {above : List NodeId} {entry : Option NodeId} {k : Nat} (h : Ledger above entry k)
    (id : NodeId) : Ledger (above ++ (entry.map fun _ => id).toList) (some id) (k + 1) := by
  have hcount := h.count
  cases entry with
  | none =>
      obtain rfl := h.eq_nil
      exact ⟨by simpa [eq_comm] using hcount, by simp⟩
  | some old =>
      constructor
      · simp only [Option.toList_some, List.length_singleton, Option.map_some, List.length_append]
          at hcount ⊢
        omega
      · intro id' hlast
        rw [Option.map_some, Option.toList_some, List.getLast?_append] at hlast
        exact hlast

/-- Two ledgers are joined when the node of the second is put over that of the
first. -/
theorem join {above above' : List NodeId} {entry entry' : Option NodeId} {k l : Nat}
    (h : Ledger above entry k) (h' : Ledger above' entry' l) :
    Ledger (above ++ (above' ++ (entry.bind fun _ => entry').toList)) (entry'.or entry) (k + l) := by
  have hcount := h.count
  have hcount' := h'.count
  cases entry with
  | none =>
      obtain rfl := h.eq_nil
      simp only [List.length_nil, Option.toList_none] at hcount
      rw [List.nil_append, Option.bind_none, Option.toList_none, List.append_nil, Option.or_none,
        ← hcount, Nat.zero_add]
      exact h'
  | some old =>
      cases entry' with
      | none =>
          obtain rfl := h'.eq_nil
          simp only [List.length_nil, Option.toList_none] at hcount'
          rw [Option.bind_some, Option.toList_none, List.append_nil, List.append_nil,
            Option.none_or, ← hcount', Nat.add_zero]
          exact h
      | some new =>
          rw [Option.bind_some, Option.some_or]
          constructor
          · simp only [Option.toList_some, List.length_singleton, List.length_append]
              at hcount hcount' ⊢
            omega
          · intro id hlast
            rw [← List.append_assoc, Option.toList_some, List.getLast?_append] at hlast
            exact hlast

end Ledger

namespace Table

/-- An entry more, unless there was one under the key. -/
theorem size_insert {α : Type} (t : Table String α) (k : String) (v : α) :
    (t.insert k v).size + (t.get? k).toList.length = t.size + 1 := by
  have hplace : ∀ {l : List (String × α)}, Increasing l →
      (place k v l).length + (find k l).toList.length = l.length + 1 := by
    intro l hl
    induction l with
    | nil => rfl
    | cons e l ih =>
        obtain ⟨hfirst, hrest⟩ := List.pairwise_cons.mp hl
        rw [place, find]
        split
        · next hk =>
          have hnone : find k l = none :=
            find_eq_none_of_lt fun e' he' => Std.TransCmp.lt_trans hk (hfirst e' he')
          simp [hk, hnone]
        · next hk => simp [hk]
        · next hk =>
          have hlength := ih hrest
          simp only [hk, List.length_cons]
          omega
  exact hplace t.increasing

/-- The keys of a table are those it has a value for. -/
theorem mem_keys {α : Type} {t : Table String α} {k : String} : k ∈ t.keys ↔ t.get? k ≠ none := by
  rw [keys, List.mem_map, Option.ne_none_iff_exists']
  constructor
  · rintro ⟨⟨k', v⟩, hmem, rfl⟩
    exact ⟨v, t.mem_entries_iff.mp hmem⟩
  · rintro ⟨v, hv⟩
    exact ⟨(k, v), t.mem_entries_iff.mpr hv, rfl⟩

end Table

namespace Registry

/-! ## filing -/

/-- The nodes that were filed under a name over another one. -/
def overwrites (b : Bucket) (name : String) (filings : List (NodeId × Filing)) : List NodeId :=
  (filings.filter fun p => p.2.files b name && p.2.replaces).map (·.1)

/-- The overwrites of a name are counted filing by filing. -/
theorem overwrites_cons (b : Bucket) (name : String) (p : NodeId × Filing)
    (filings : List (NodeId × Filing)) :
    overwrites b name (p :: filings) =
      (if p.2.files b name && p.2.replaces then [p.1] else []) ++ overwrites b name filings := by
  rw [overwrites, List.filter_cons]
  split
  · rfl
  · rfl

section

variable (builtins : Builtins) (r : Registry)

/-- A filing files the name of its declaration, unless that is built in or missing. -/
theorem files_fileDeclaration (id : NodeId) (d : Declaration) (b : Bucket) (name : String) :
    (r.fileDeclaration builtins id d).2.files b name = true ↔
      d.FiledUnder builtins r.targetSpace b name := by
  constructor
  · intro h
    rw [filing_fileDeclaration] at h
    split at h
    · contradiction
    · next hbuiltin =>
      split at h
      · split at h <;> contradiction
      · split at h
        · next b' name' hb hname =>
          obtain ⟨rfl, rfl⟩ := of_decide_eq_true h
          exact ⟨Bucket.ofKind?_eq_some_iff.mp hb, hname, hbuiltin⟩
        · contradiction
  · intro h
    rw [filing_of_filedUnder r builtins id d h]
    simp [Filing.files]

/-- What is not filed under any name is not declared. -/
theorem declares_fileDeclaration (id : NodeId) {d : Declaration}
    (h : ∀ b name, ¬ d.FiledUnder builtins r.targetSpace b name) :
    (r.fileDeclaration builtins id d).2.declares = false := by
  cases hfiling : (r.fileDeclaration builtins id d).2 with
  | declared b name replaced =>
      refine absurd ?_ (h b name)
      rw [← files_fileDeclaration builtins r id d b name, hfiling]
      simp [Filing.files]
  | reference reference => rfl
  | missingLocation => rfl
  | builtin => rfl
  | ignored => rfl

/-- **Filing carries a ledger on.** -/
theorem ledger_fileLooked {b : Bucket} {name : String} (ds : List (NodeId × Declaration))
    {above : List NodeId} {k : Nat} (h : Ledger above (r.lookup b name) k) :
    Ledger (above ++ overwrites b name (filingsLooked builtins r ds))
      ((fileLooked builtins r ds).lookup b name)
      (k + (filingsLooked builtins r ds).countP (·.2.files b name)) := by
  induction ds generalizing r above k with
  | nil =>
      rw [filingsLooked, overwrites, List.filter_nil, List.map_nil, List.append_nil]
      exact h
  | cons p ds ih =>
      have hlookup := lookup_fileDeclaration r builtins p.1 p.2 b name
      by_cases hfiled : p.2.FiledUnder builtins r.targetSpace b name
      · have hfiles := (files_fileDeclaration builtins r p.1 p.2 b name).mpr hfiled
        have hreplaces : (r.fileDeclaration builtins p.1 p.2).2.replaces =
            (r.lookup b name).isSome := by
          rw [filing_of_filedUnder r builtins p.1 p.2 hfiled, Filing.replaces]
        rw [if_pos hfiled] at hlookup
        have hrest := ih _ (hlookup ▸ h.file p.1)
        have hover : overwrites b name (filingsLooked builtins r (p :: ds)) =
            ((r.lookup b name).map fun _ => p.1).toList ++
              overwrites b name (filingsLooked builtins (r.fileDeclaration builtins p.1 p.2).1 ds) := by
          rw [filingsLooked, overwrites_cons, hfiles, hreplaces, Bool.true_and]
          cases r.lookup b name with
          | none => rfl
          | some old => rfl
        rw [hover, ← List.append_assoc]
        simp only [filingsLooked, List.countP_cons, hfiles, if_true]
        rw [Nat.add_comm _ 1, ← Nat.add_assoc]
        exact hrest
      · have hfiles := mt (files_fileDeclaration builtins r p.1 p.2 b name).mp hfiled
        rw [if_neg hfiled] at hlookup
        have hrest := ih _ (hlookup ▸ h)
        simp only [filingsLooked, overwrites_cons, List.countP_cons, hfiles, Bool.false_and,
          Bool.false_eq_true, if_false, Nat.add_zero]
        exact hrest

end

/-! ## the number of declarations -/

/-- The number of declarations, bucket by bucket. -/
theorem size_eq_sum (r : Registry) : r.size = (Bucket.all.map fun b => (r.bucket b).size).sum := by
  rw [size, List.length_flatMap]
  simp only [Table.keys, Table.size, List.length_map]

/-- One more declaration, unless it stands where another one stood. -/
theorem size_insert (r : Registry) (b : Bucket) (name : String) (id : NodeId) :
    (r.insert b name id).size + (r.lookup b name).toList.length = r.size + 1 := by
  have hbucket : ∀ c, ((r.insert b name id).bucket c) =
      if c = b then (r.bucket b).insert name id else r.bucket c :=
    fun c => PerBucket.get_set _ _ _ _
  have hsize := Table.size_insert (r.bucket b) name id
  rw [← lookup] at hsize
  simp only [size_eq_sum, Bucket.all, List.map_cons, List.map_nil, List.sum_cons, List.sum_nil,
    hbucket]
  cases b <;> simp <;> omega

/-- **Filing keeps the sum**: each declaration that is filed adds to the number
or replaces another one. -/
theorem size_fileLooked (builtins : Builtins) (r : Registry) (ds : List (NodeId × Declaration)) :
    (fileLooked builtins r ds).size +
        (filingsLooked builtins r ds).countP (·.2.replaces) =
      r.size + (filingsLooked builtins r ds).countP (·.2.declares) := by
  induction ds generalizing r with
  | nil => rfl
  | cons p ds ih =>
      have hrest := ih (r.fileDeclaration builtins p.1 p.2).1
      rw [fileLooked, List.foldl_cons, ← fileLooked]
      simp only [filingsLooked, List.countP_cons]
      rcases fileDeclaration_cases r builtins p.1 p.2 with
        ⟨b, name, hfiled, -, h⟩ | ⟨reference, hnone, -, h⟩ | ⟨hnone, -, h⟩
      · have hsize := size_insert r b name p.1
        rw [h] at hrest ⊢
        rw [filing_of_filedUnder r builtins p.1 p.2 hfiled]
        cases hlookup : r.lookup b name with
        | none => simp [hlookup] at hsize ⊢; omega
        | some old => simp [hlookup] at hsize ⊢; omega
      · have hdeclares := declares_fileDeclaration builtins r p.1 hnone
        have hsize : (r.addReference reference).size = r.size := rfl
        rw [h, hsize] at hrest
        rw [h, hdeclares, Filing.replaces_eq_false hdeclares]
        exact hrest
      · have hdeclares := declares_fileDeclaration builtins r p.1 hnone
        rw [h] at hrest ⊢
        rw [hdeclares, Filing.replaces_eq_false hdeclares]
        exact hrest

/-- The registry of a document by itself. -/
theorem ledger_ofRoot (builtins : Builtins) (root : NodeId) (d : Declaration)
    (ds : List (NodeId × Declaration)) (b : Bucket) (name : String) :
    Ledger (overwrites b name (filingsLooked builtins (ofRoot root d) ds))
      ((fileLooked builtins (ofRoot root d) ds).lookup b name)
      ((filingsLooked builtins (ofRoot root d) ds).countP (·.2.files b name)) := by
  have hempty : Ledger [] ((ofRoot root d).lookup b name) 0 := by
    rw [lookup_ofRoot]
    exact .nil
  have hfiled := ledger_fileLooked builtins (ofRoot root d) ds hempty
  rwa [List.nil_append, Nat.zero_add] at hfiled

/-- The size of a registry and the replacements together count the declarations filed. -/
theorem size_ofRoot (builtins : Builtins) (root : NodeId) (d : Declaration)
    (ds : List (NodeId × Declaration)) :
    (fileLooked builtins (ofRoot root d) ds).size +
        (filingsLooked builtins (ofRoot root d) ds).countP (·.2.replaces) =
      (filingsLooked builtins (ofRoot root d) ds).countP (·.2.declares) := by
  have hempty : (ofRoot root d).size = 0 := rfl
  rw [size_fileLooked, hempty, Nat.zero_add]

/-! ## merging -/

/-- The entries that are put over a table add to its number or replace an entry
of the table. -/
theorem size_overlay (target source : Table String NodeId) :
    (overlay target source).size + (sharedNames target source).length =
      target.size + source.size := by
  have hfold : ∀ {entries : List (String × NodeId)} (t : Table String NodeId),
      Increasing entries →
      (entries.foldl (fun t e => t.insert e.1 e.2) t).size +
          ((entries.map (·.1)).filter t.contains).length = t.size + entries.length := by
    intro entries
    induction entries with
    | nil => intro t _; rfl
    | cons e entries ih =>
        intro t hincreasing
        obtain ⟨hfirst, hrest⟩ := List.pairwise_cons.mp hincreasing
        have hlater := ih (t.insert e.1 e.2) hrest
        have hsize := Table.size_insert t e.1 e.2
        have hsame : (entries.map (·.1)).filter (t.insert e.1 e.2).contains =
            (entries.map (·.1)).filter t.contains := by
          refine List.filter_congr fun k hk => ?_
          obtain ⟨e', he', rfl⟩ := List.mem_map.mp hk
          have hne : e'.1 ≠ e.1 := by
            intro heq
            have hlt := hfirst e' he'
            simp [heq] at hlt
          rw [Table.contains, Table.contains, Table.get?_insert_of_ne _ _ hne]
        rw [List.foldl_cons, List.map_cons, List.filter_cons, List.length_cons]
        rw [hsame] at hlater
        cases hget : t.get? e.1 with
        | none => simp [Table.contains, hget] at hsize ⊢; omega
        | some old => simp [Table.contains, hget] at hsize ⊢; omega
  exact hfold target source.increasing

/-- **Merging keeps the sum**: what both have is counted once, and reported. -/
theorem size_absorb (dedup : Bool) (target source : Registry) :
    (absorb dedup target source).size + (absorbReport dedup target source).redefined.length =
      target.size + source.size := by
  have hbucket : ∀ b, ((absorb dedup target source).bucket b).size +
      (sharedNames (target.bucket b) (source.bucket b)).length =
        (target.bucket b).size + (source.bucket b).size := by
    intro b
    have hoverlay : (absorb dedup target source).bucket b =
        overlay (target.bucket b) (source.bucket b) := PerBucket.get_ofFn _ b
    rw [hoverlay, size_overlay]
  simp only [size_eq_sum, absorbReport, List.length_flatMap, List.length_map]
  rw [← List.sum_map_add, ← List.sum_map_add]
  simp only [hbucket]

/-- The redefined names are those that both registries declare. -/
theorem mem_redefined {dedup : Bool} {target source : Registry} {b : Bucket} {name : String} :
    (b, name) ∈ (absorbReport dedup target source).redefined ↔
      target.lookup b name ≠ none ∧ source.lookup b name ≠ none := by
  have hshared : name ∈ sharedNames (target.bucket b) (source.bucket b) ↔
      target.lookup b name ≠ none ∧ source.lookup b name ≠ none := by
    rw [sharedNames, List.mem_filter, Table.mem_keys, Table.contains, Option.isSome_iff_ne_none,
      and_comm]
    rfl
  simp only [absorbReport, List.mem_flatMap, List.mem_map, Prod.mk.injEq]
  constructor
  · rintro ⟨b', -, name', hname', rfl, rfl⟩
    exact hshared.mp hname'
  · intro h
    exact ⟨b, Bucket.mem_all b, name, hshared.mpr h, rfl, rfl⟩

/-- No name is reported as redefined twice. -/
theorem nodup_redefined (dedup : Bool) (target source : Registry) :
    (absorbReport dedup target source).redefined.Nodup := by
  refine List.nodup_flatMap.mpr ⟨fun b _ => ?_, ?_⟩
  · have hnames : (sharedNames (target.bucket b) (source.bucket b)).Nodup :=
      (Table.nodup_keys (source.bucket b)).filter _
    exact hnames.map fun name name' h => (Prod.mk.inj h).2
  · have hbuckets : Bucket.all.Nodup := by decide
    refine hbuckets.imp fun {b b'} hne => ?_
    intro p hp hp'
    obtain ⟨name, -, rfl⟩ := List.mem_map.mp hp
    obtain ⟨name', -, heq⟩ := List.mem_map.mp hp'
    exact hne (Prod.mk.inj heq).1.symm

/-- The report lists a name once if both registries have it, else not at all. -/
theorem filter_redefined (dedup : Bool) (target source : Registry) (b : Bucket) (name : String) :
    (absorbReport dedup target source).redefined.filter (· = (b, name)) =
      if target.lookup b name ≠ none ∧ source.lookup b name ≠ none then [(b, name)] else [] := by
  rw [List.filter_eq (b, name)]
  split
  · next h =>
    rw [List.count_eq_one_of_mem (nodup_redefined dedup target source) (mem_redefined.mpr h)]
    rfl
  · next h =>
    rw [List.count_eq_zero_of_not_mem fun hmem => h (mem_redefined.mp hmem)]
    rfl

end Registry

end SchemaCatalog
