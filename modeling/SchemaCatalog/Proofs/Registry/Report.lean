import SchemaCatalog.Proofs.Registry.Algebra
import SchemaCatalog.Proofs.Registry.Ledger

/-!
# SchemaCatalog.Proofs.Registry.Report

The report of a merge is exact.  `absorbReport` reads it off the two registries
as they were.  A merge *in place* makes it as it goes: entry by entry, bucket by
bucket, it looks whether something stands under the name by then, and reference
by reference, whether it has been seen by then.  Both come to the same
(`mergeInPlace_eq`), because no entry of the source gets in the way of a later
one: the names of a bucket differ, and so do the buckets.

What the report says, and what has become of the target, is
`mergeWith_report_exact`.
-/

namespace SchemaCatalog

/-- The report with more names that were there before, and more that were not. -/
def MergeReport.more (report : MergeReport) (redefined : List (Bucket × String)) (added : Nat) :
    MergeReport :=
  { report with redefined := report.redefined ++ redefined, added := report.added + added }

theorem MergeReport.more_nil (report : MergeReport) : report.more [] 0 = report := by
  simp only [more, List.append_nil, Nat.add_zero]

/-- Reports add up. -/
theorem MergeReport.more_more (report : MergeReport) (xs ys : List (Bucket × String)) (m n : Nat) :
    (report.more xs m).more ys n = report.more (xs ++ ys) (m + n) := by
  simp only [more, List.append_assoc, Nat.add_assoc]

namespace Registry

/-! ## merging in place -/

/-- The registry with another table in one of its buckets. -/
def withBucket (r : Registry) (b : Bucket) (t : Table String NodeId) : Registry :=
  { r with declarations := r.declarations.set b t }

/-- Puts one entry into a bucket, and reports whether it was put over another one. -/
def takeEntry (b : Bucket) (m : Registry × MergeReport) (e : String × NodeId) :
    Registry × MergeReport :=
  (m.1.insert b e.1 e.2, match m.1.lookup b e.1 with
    | some _ => { m.2 with redefined := m.2.redefined ++ [(b, e.1)] }
    | none => { m.2 with added := m.2.added + 1 })

def takeBucket (source : Registry) (m : Registry × MergeReport) (b : Bucket) :
    Registry × MergeReport :=
  (source.bucket b).entries.foldl (takeEntry b) m

/-- Appends references. With `dedup` one that has been seen is passed over. -/
def takeReferences (dedup : Bool) (seen : List ExternalReference) (m : Registry × MergeReport) :
    List ExternalReference → Registry × MergeReport
  | [] => m
  | r :: rest =>
    if dedup = true ∧ r ∈ seen then takeReferences dedup seen m rest
    else takeReferences dedup (r :: seen)
      (m.1.addReference r, { m.2 with referencesAdded := m.2.referencesAdded + 1 }) rest

/-- Merges a source into a target step by step. -/
def mergeInPlace (dedup : Bool) (target source : Registry) : Registry × MergeReport :=
  if target.targetSpace = source.targetSpace then
    let taken := Bucket.all.foldl (takeBucket source) (target, { merged := true })
    let seen := if dedup then target.externalReferences else []
    let (merged, report) := takeReferences dedup seen taken source.externalReferences
    ({ merged with roots := joinRoots merged.roots source.roots }, report)
  else (target, {})

def withBuckets (r : Registry) (f : Bucket → Table String NodeId) : Registry :=
  { r with declarations := .ofFn f }

@[simp] theorem bucket_withBuckets (r : Registry) (f : Bucket → Table String NodeId) (b : Bucket) :
    (r.withBuckets f).bucket b = f b :=
  PerBucket.get_ofFn f b

/-- Replacing a bucket leaves the others as they were. -/
theorem bucket_withBucket (r : Registry) (b c : Bucket) (t : Table String NodeId) :
    (r.withBucket b t).bucket c = if c = b then t else r.bucket c :=
  PerBucket.get_set _ _ _ _

@[simp] theorem bucket_withBucket_self (r : Registry) (b : Bucket) (t : Table String NodeId) :
    (r.withBucket b t).bucket b = t := by
  rw [bucket_withBucket, if_pos rfl]

/-- Of two replacements of a bucket the later stays. -/
theorem withBucket_withBucket (r : Registry) (b : Bucket) (t u : Table String NodeId) :
    (r.withBucket b t).withBucket b u = r.withBucket b u := by
  refine ext_parts rfl rfl rfl (fun c => ?_) rfl
  simp only [bucket_withBucket]
  split <;> rfl

/-- Replacing a bucket by itself changes nothing. -/
theorem withBucket_bucket (r : Registry) (b : Bucket) : r.withBucket b (r.bucket b) = r := by
  refine ext_parts rfl rfl rfl (fun c => ?_) rfl
  rw [bucket_withBucket]
  split
  · next h => rw [h]
  · rfl

/-! ## entries -/

/-- The names among some that a bucket has, as they are reported. -/
def there (b : Bucket) (t : Table String NodeId) (names : List String) : List (Bucket × String) :=
  (names.filter t.contains).map fun name => (b, name)

def missing (t : Table String NodeId) (names : List String) : List String :=
  names.filter (! t.contains ·)

/-- Taking an entry inserts it and reports whether its name was there. -/
theorem takeEntry_eq (b : Bucket) (m : Registry × MergeReport) (e : String × NodeId) :
    takeEntry b m e = (m.1.withBucket b ((m.1.bucket b).insert e.1 e.2),
      m.2.more (there b (m.1.bucket b) [e.1]) (missing (m.1.bucket b) [e.1]).length) := by
  refine Prod.ext rfl ?_
  cases hlookup : m.1.lookup b e.1 with
  | none =>
      have hcontains : (m.1.bucket b).contains e.1 = false := by
        rw [Table.contains, ← lookup, hlookup, Option.isSome_none]
      simp [takeEntry, hlookup, there, missing, hcontains, MergeReport.more]
  | some old =>
      have hcontains : (m.1.bucket b).contains e.1 = true := by
        rw [Table.contains, ← lookup, hlookup, Option.isSome_some]
      simp [takeEntry, hlookup, there, missing, hcontains, MergeReport.more]

/-- **Entries taken one by one** are put over the bucket, and each name is
reported by whether the bucket had it at first. -/
theorem foldl_takeEntry (b : Bucket) {entries : List (String × NodeId)}
    (h : Increasing entries) (m : Registry × MergeReport) :
    entries.foldl (takeEntry b) m =
      (m.1.withBucket b (entries.foldl (fun t e => t.insert e.1 e.2) (m.1.bucket b)),
        m.2.more (there b (m.1.bucket b) (entries.map (·.1)))
          (missing (m.1.bucket b) (entries.map (·.1))).length) := by
  induction entries generalizing m with
  | nil =>
      rw [List.foldl_nil, List.foldl_nil, withBucket_bucket]
      exact Prod.ext rfl (MergeReport.more_nil m.2).symm
  | cons e entries ih =>
      obtain ⟨hfirst, hrest⟩ := List.pairwise_cons.mp h
      -- no later name is that of the entry, so the bucket has it or not as before
      have hlater : ∀ name ∈ entries.map (·.1),
          ((m.1.bucket b).insert e.1 e.2).contains name = (m.1.bucket b).contains name := by
        intro name hname
        obtain ⟨e', he', rfl⟩ := List.mem_map.mp hname
        have hne : e'.1 ≠ e.1 := by
          intro heq
          have hlt := hfirst e' he'
          simp [heq] at hlt
        rw [Table.contains, Table.contains, Table.get?_insert_of_ne _ _ hne]
      have hthere : there b ((m.1.bucket b).insert e.1 e.2) (entries.map (·.1)) =
          there b (m.1.bucket b) (entries.map (·.1)) := by
        rw [there, there, List.filter_congr hlater]
      have hmissing : missing ((m.1.bucket b).insert e.1 e.2) (entries.map (·.1)) =
          missing (m.1.bucket b) (entries.map (·.1)) :=
        List.filter_congr fun name hname => by rw [hlater name hname]
      rw [List.foldl_cons, ih hrest, takeEntry_eq]
      simp only [bucket_withBucket_self, withBucket_withBucket, hthere, hmissing,
        MergeReport.more_more, ← List.length_append]
      simp only [there, missing, ← List.map_append, ← List.filter_append, List.singleton_append]
      rfl

section

variable (target source : Registry)

/-- The names of a bucket of the source that the target has, as they are reported. -/
def redefinedIn (b : Bucket) : List (Bucket × String) :=
  there b (target.bucket b) (source.bucket b).keys

def addedIn (b : Bucket) : List String := missing (target.bucket b) (source.bucket b).keys

end

/-- **Buckets taken one by one**: each bucket of the source meets the bucket that
the target had at first. -/
theorem foldl_takeBucket (source : Registry) {bs : List Bucket} (hbs : bs.Nodup)
    (m : Registry × MergeReport) :
    bs.foldl (takeBucket source) m =
      (m.1.withBuckets fun b =>
          if b ∈ bs then overlay (m.1.bucket b) (source.bucket b) else m.1.bucket b,
        m.2.more (bs.flatMap (redefinedIn m.1 source)) (bs.flatMap (addedIn m.1 source)).length) := by
  induction bs generalizing m with
  | nil =>
      refine Prod.ext (ext_parts rfl rfl rfl (fun b => ?_) rfl) (MergeReport.more_nil m.2).symm
      rw [bucket_withBuckets, if_neg List.not_mem_nil]
      rfl
  | cons b bs ih =>
      obtain ⟨hb, hrest⟩ := List.nodup_cons.mp hbs
      have hfirst : takeBucket source m b =
          (m.1.withBucket b (overlay (m.1.bucket b) (source.bucket b)),
            m.2.more (redefinedIn m.1 source b) (addedIn m.1 source b).length) :=
        foldl_takeEntry b (source.bucket b).increasing m
      have hother : ∀ c ∈ bs, (m.1.withBucket b (overlay (m.1.bucket b) (source.bucket b))).bucket c =
          m.1.bucket c := by
        intro c hc
        rw [bucket_withBucket, if_neg]
        rintro rfl
        exact hb hc
      have hredefined : bs.flatMap (redefinedIn (m.1.withBucket b
          (overlay (m.1.bucket b) (source.bucket b))) source) = bs.flatMap (redefinedIn m.1 source) :=
        List.flatMap_congr fun c hc => by rw [redefinedIn, redefinedIn, hother c hc]
      have hadded : bs.flatMap (addedIn (m.1.withBucket b
          (overlay (m.1.bucket b) (source.bucket b))) source) = bs.flatMap (addedIn m.1 source) :=
        List.flatMap_congr fun c hc => by rw [addedIn, addedIn, hother c hc]
      rw [List.foldl_cons, hfirst, ih hrest, MergeReport.more_more, hredefined, hadded,
        ← List.length_append]
      refine Prod.ext (ext_parts rfl rfl rfl (fun c => ?_) rfl) rfl
      rw [bucket_withBuckets, bucket_withBuckets]
      by_cases hc : c ∈ bs
      · rw [if_pos hc, if_pos (List.mem_cons_of_mem b hc), hother c hc]
      · rw [if_neg hc, bucket_withBucket]
        by_cases hcb : c = b
        · rw [if_pos hcb, if_pos (hcb ▸ List.mem_cons_self), hcb]
        · rw [if_neg hcb, if_neg (by simp [hcb, hc])]

/-! ## references -/

/-- **References taken one by one** are those that are not in `seen`, each once,
if repetitions are left out. -/
theorem takeReferences_eq (dedup : Bool) (seen : List ExternalReference)
    (m : Registry × MergeReport) (refs : List ExternalReference) :
    takeReferences dedup seen m refs =
      let taken := if dedup then freshReferences seen refs else refs
      ({ m.1 with externalReferences := m.1.externalReferences ++ taken },
        { m.2 with referencesAdded := m.2.referencesAdded + taken.length }) := by
  induction refs generalizing seen m with
  | nil => cases dedup <;> simp [takeReferences, freshReferences]
  | cons r refs ih =>
      rw [takeReferences]
      cases dedup with
      | false => simp [ih, addReference, Nat.add_assoc, Nat.add_comm 1]
      | true =>
          by_cases hr : r ∈ seen
          · simp [hr, ih, freshReferences]
          · simp [hr, ih, freshReferences, addReference, Nat.add_assoc, Nat.add_comm 1]

/-- **In place** a merge comes to the same, and makes the same report. -/
theorem mergeInPlace_eq (dedup : Bool) (target source : Registry) :
    mergeInPlace dedup target source = mergeWith dedup target source := by
  have hall : Bucket.all.Nodup := by decide
  have hbuckets : (fun b => if b ∈ Bucket.all then overlay (target.bucket b) (source.bucket b)
      else target.bucket b) = fun b => overlay (target.bucket b) (source.bucket b) :=
    funext fun b => if_pos (Bucket.mem_all b)
  rw [mergeInPlace, mergeWith]
  by_cases hspace : target.targetSpace = source.targetSpace
  · rw [if_pos hspace, if_pos hspace, foldl_takeBucket source hall, hbuckets]
    simp only [takeReferences_eq, MergeReport.more, List.nil_append, Nat.zero_add]
    cases dedup <;> rfl
  · rw [if_neg hspace, if_neg hspace]

/-! ## the report -/

/-- In bucket order, and then by name. -/
def ListedBefore (p q : Bucket × String) : Prop :=
  Bucket.all.idxOf p.1 < Bucket.all.idxOf q.1 ∨ p.1 = q.1 ∧ p.2 < q.2

/-- The keys of a table are in increasing order. -/
theorem keys_increasing (t : Table String NodeId) : t.keys.Pairwise (· < ·) :=
  List.pairwise_map.mpr (t.increasing.imp fun h => compareOfLessAndEq_eq_lt.mp h)

/-- Redefinitions are reported in order. -/
theorem redefined_increasing (dedup : Bool) (target source : Registry) :
    (absorbReport dedup target source).redefined.Pairwise ListedBefore := by
  refine List.pairwise_flatMap.mpr ⟨fun b _ => ?_, ?_⟩
  · have hnames : (sharedNames (target.bucket b) (source.bucket b)).Pairwise (· < ·) :=
      (keys_increasing (source.bucket b)).filter _
    exact List.pairwise_map.mpr (hnames.imp fun h => .inr ⟨rfl, h⟩)
  · have hbuckets : Bucket.all.Pairwise fun b c => Bucket.all.idxOf b < Bucket.all.idxOf c := by
      decide
    refine hbuckets.imp fun {b c} hlt p hp q hq => ?_
    obtain ⟨name, -, rfl⟩ := List.mem_map.mp hp
    obtain ⟨name', -, rfl⟩ := List.mem_map.mp hq
    exact .inl hlt

/-- Each declaration of the source is reported, as redefined or as added. -/
theorem length_redefined_add_added (dedup : Bool) (target source : Registry) :
    (absorbReport dedup target source).redefined.length +
      (absorbReport dedup target source).added = source.size := by
  have hbucket : ∀ b, (sharedNames (target.bucket b) (source.bucket b)).length +
      ((source.bucket b).keys.filter (! (target.bucket b).contains ·)).length =
        (source.bucket b).keys.length :=
    fun b => (List.length_eq_length_filter_add (target.bucket b).contains).symm
  simp only [absorbReport, size, List.length_flatMap, List.length_map]
  rw [← List.sum_map_add]
  simp only [hbucket]

/-- The fresh references are those that have not been seen. -/
theorem mem_freshReferences {seen refs : List ExternalReference} {r : ExternalReference} :
    r ∈ freshReferences seen refs ↔ r ∈ refs ∧ r ∉ seen := by
  rw [freshReferences_eq, List.mem_eraseDups, List.removeAll, List.mem_filter]
  simp

/-- Fresh references come in the order in which they occur first. -/
theorem freshReferences_increasing (seen refs : List ExternalReference) :
    (freshReferences seen refs).Pairwise fun r s => refs.idxOf r < refs.idxOf s := by
  induction refs generalizing seen with
  | nil => exact .nil
  | cons q refs ih =>
      have hlater : ∀ {known : List ExternalReference}, q ∈ known →
          (freshReferences known refs).Pairwise fun r s =>
            (q :: refs).idxOf r < (q :: refs).idxOf s := by
        intro known hq
        refine (ih known).imp_of_mem fun {r s} hr hs hlt => ?_
        have hne : ∀ {t}, t ∈ freshReferences known refs → t ≠ q :=
          fun ht heq => (mem_freshReferences.mp ht).2 (heq ▸ hq)
        rw [List.idxOf_cons_ne _ (hne hr).symm, List.idxOf_cons_ne _ (hne hs).symm]
        exact Nat.succ_lt_succ hlt
      rw [freshReferences]
      by_cases hq : q ∈ seen
      · rw [if_pos hq]
        exact hlater hq
      · rw [if_neg hq]
        refine List.pairwise_cons.mpr ⟨fun r hr => ?_, hlater List.mem_cons_self⟩
        have hne : r ≠ q := fun heq => (mem_freshReferences.mp hr).2 (heq ▸ List.mem_cons_self)
        rw [List.idxOf_cons_self, List.idxOf_cons_ne _ hne.symm]
        exact Nat.succ_pos _

/-- **The report of a merge is exact.**  Registries of different namespaces are
not merged: the target stays as it is, and the report is empty.  Otherwise the
merge, which can be made in place, reports as redefined the names that both
registries have in a bucket, each once, in bucket order and then by name, and
counts as added all others of the source.  The target then has as many
declarations more as were added, finds the source's nodes under the source's
names and its own under all other names, and lists behind its own references
all of the source, or, if repetitions are left out, each that it did not list
before, once and in the order in which they occur first. -/
theorem mergeWith_report_exact (dedup : Bool) (target source : Registry) :
    (target.targetSpace ≠ source.targetSpace → mergeWith dedup target source =
      (target, { merged := false, redefined := [], added := 0, referencesAdded := 0 })) ∧
    (target.targetSpace = source.targetSpace →
      ∃ after report rest, mergeWith dedup target source = (after, report) ∧
        mergeInPlace dedup target source = (after, report) ∧
        report.merged = true ∧
        (∀ b name, (b, name) ∈ report.redefined ↔
          target.lookup b name ≠ none ∧ source.lookup b name ≠ none) ∧
        report.redefined.Nodup ∧ report.redefined.Pairwise ListedBefore ∧
        report.redefined.length + report.added = source.size ∧
        after.size = target.size + report.added ∧
        (∀ b name id, source.lookup b name = some id → after.lookup b name = some id) ∧
        (∀ b name, source.lookup b name = none → after.lookup b name = target.lookup b name) ∧
        after.externalReferences = target.externalReferences ++ rest ∧
        rest.length = report.referencesAdded ∧
        (dedup = false → rest = source.externalReferences) ∧
        (dedup = true →
          (∀ r, r ∈ rest ↔ r ∈ source.externalReferences ∧ r ∉ target.externalReferences) ∧
          rest.Pairwise fun r s =>
            source.externalReferences.idxOf r < source.externalReferences.idxOf s)) := by
  refine ⟨fun hspace => by rw [mergeWith, if_neg hspace], fun hspace => ?_⟩
  have hmerge := mergeWith_of_eq dedup hspace
  have hsum := length_redefined_add_added dedup target source
  have hsize := size_absorb dedup target source
  refine ⟨_, _, appendedReferences dedup target source, hmerge,
    (mergeInPlace_eq dedup target source).trans hmerge, rfl, fun b name => mem_redefined,
    nodup_redefined dedup target source, redefined_increasing dedup target source, hsum, by omega,
    fun b name id hid => ?_, fun b name hnone => ?_, rfl, rfl, ?_, ?_⟩
  · rw [lookup_absorb, hid, Option.some_or]
  · rw [lookup_absorb, hnone, Option.none_or]
  · rintro rfl
    rfl
  · rintro rfl
    exact ⟨fun r => mem_freshReferences, freshReferences_increasing _ _⟩

/-- Two registries that share a name and a reference: the name is redefined, and
of the source's references, one of which stands there twice, one is appended. -/
theorem mergeWith_report_exact_sharing : ∃ target source after : Registry,
    ∃ report : MergeReport, target.targetSpace = source.targetSpace ∧
      mergeWith true target source = (after, report) ∧
      report.redefined = [(.elements, "item")] ∧ report.added = 0 ∧ after.size = 1 ∧
      after.lookup .elements "item" = some ⟨3⟩ ∧
      after.externalReferences.map (·.location) = ["x.xsd", "y.xsd"] := by
  let target := sharing 0 1 ["x.xsd"]
  let source := sharing 2 3 ["y.xsd", "x.xsd", "y.xsd"]
  obtain ⟨-, hreport⟩ := mergeWith_report_exact true target source
  obtain ⟨after, report, rest, hmerge, -, -, -, -, -, hsum, hsize, hsource, -⟩ := hreport rfl
  have hredefined : report.redefined = [(.elements, "item")] := by
    obtain ⟨-, rfl⟩ := Prod.mk.inj hmerge
    decide +kernel
  have hsourceSize : source.size = 1 := by decide +kernel
  have htargetSize : target.size = 1 := by decide +kernel
  have hadded : report.added = 0 := by
    rw [hredefined, hsourceSize, List.length_singleton] at hsum
    omega
  refine ⟨target, source, after, report, rfl, hmerge, hredefined, hadded, ?_,
    hsource _ _ _ (by decide +kernel), ?_⟩
  · rw [hsize, htargetSize, hadded]
  · obtain ⟨rfl, -⟩ := Prod.mk.inj hmerge
    decide +kernel

end Registry

end SchemaCatalog
