import Mathlib.Data.List.Induction
import SchemaCatalog.Proofs.Walk.History

/-!
# SchemaCatalog.Proofs.Session.Severity

How grave the notes of a session are.  The gravest severity is a warning just if
one of the notes warns (`worst_eq_warning_iff`), so what makes a session warn can
be told operation by operation: documents with a directive that names no location
(`worst_addDocument`), and names that a lenient resolution leaves open
(`worst_resolveReferences`).  Notes stay once they are made, and with them the
warning (`worst_run`).
-/

namespace SchemaCatalog

namespace Diagnostics

/-- A warning stays the gravest severity, and any other note gives way to it. -/
theorem worst_foldl_eq_warning_iff (notes : List Diagnostic) (w : Option Diagnostic.Severity) :
    notes.foldl (fun w d => some ((w.getD d.severity).max d.severity)) w = some .warning ↔
      w = some .warning ∨ ∃ d ∈ notes, d.severity = .warning := by
  induction notes generalizing w with
  | nil => simp
  | cons d notes ih =>
      have hmax : (w.getD d.severity).max d.severity = .warning ↔
          w = some .warning ∨ d.severity = .warning := by
        cases d.severity <;> rcases w with _ | _ | _ <;> simp [Diagnostic.Severity.max]
      simp only [List.foldl_cons, ih, Option.some.injEq, hmax, List.mem_cons, or_and_right,
        exists_or, exists_eq_left, or_assoc]

/-- **A warning is the gravest severity** if there is a note that warns. -/
theorem worst_eq_warning_iff {ds : Diagnostics} :
    ds.worst = some .warning ↔ ∃ d ∈ ds.items, d.severity = .warning := by
  rw [worst, worst_foldl_eq_warning_iff, or_iff_right (by simp)]

/-- There is no gravest severity where there are no notes. -/
theorem worst_eq_none_iff {ds : Diagnostics} : ds.worst = none ↔ ds.items = [] := by
  obtain ⟨items⟩ := ds
  cases items using List.reverseRecOn with
  | nil => exact iff_of_true rfl rfl
  | append_singleton items d =>
      rw [worst, List.foldl_concat]
      simp

/-- Only notes that warn among the new ones can make a difference. -/
theorem worst_append_eq_warning_iff {ds : Diagnostics} {more : List Diagnostic} :
    (ds.append more).worst = some .warning ↔
      ds.worst = some .warning ∨ ∃ d ∈ more, d.severity = .warning := by
  simp only [worst_eq_warning_iff, append, List.mem_append, or_and_right, exists_or]

end Diagnostics

namespace Session

open Walk

section

variable {s t : Session}

/-! ## notes that warn -/

/-- What filing notes warns of is a missing location. -/
theorem exists_warning_filingNotes {space : String} {filings : List (NodeId × Filing)} :
    (∃ d ∈ filingNotes space filings, d.severity = .warning) ↔
      ∃ id, (id, .missingLocation) ∈ filings := by
  constructor
  · rintro ⟨d, hd, hwarns⟩
    obtain ⟨⟨id, filing⟩, hmem, heq⟩ := List.mem_filterMap.mp hd
    cases filing with
    | missingLocation => exact ⟨id, hmem⟩
    | declared b name replaced =>
        cases replaced with
        | none => contradiction
        | some old =>
            obtain rfl := Option.some.inj heq
            contradiction
    | _ => contradiction
  · rintro ⟨id, hmem⟩
    exact ⟨.missingLocation space id, List.mem_filterMap.mpr ⟨_, hmem, rfl⟩, rfl⟩

/-- A redefinition is no reason to warn. -/
theorem severity_of_mem_mergeNotes {merged : Registry} {redefined : List (Bucket × String)}
    {d : Diagnostic} (h : d ∈ mergeNotes merged redefined) : d.severity = .info := by
  obtain ⟨⟨b, name⟩, -, hd⟩ := List.mem_filterMap.mp h
  obtain ⟨id, -, rfl⟩ := Option.map_eq_some_iff.mp hd
  rfl

/-- A replacement is for information. -/
theorem severity_of_mem_replacements {fragment : Registry} {d : Diagnostic}
    (h : d ∈ s.replacements fragment) : d.severity = .info := by
  rw [replacements] at h
  split at h
  · contradiction
  · exact severity_of_mem_mergeNotes h

/-- A namespace that has not been fetched is for information. -/
theorem severity_of_mem_unfetchedNotes {d : Diagnostic} (h : d ∈ s.unfetchedNotes) :
    d.severity = .info := by
  obtain ⟨p, -, rfl⟩ := List.mem_map.mp h
  rfl

/-! ## what makes a session warn -/

/-- **A document** makes a session warn if one of its directives names no location. -/
theorem worst_addDocument {root : NodeId} {fragment : Registry}
    {filings : List (NodeId × Filing)}
    (hfiled : filed s.builtins s.arena root = .ok (fragment, filings))
    (hadd : s.addDocument root = .ok t) :
    t.diagnostics.worst = some .warning ↔
      s.diagnostics.worst = some .warning ∨ ∃ id, (id, .missingLocation) ∈ filings := by
  obtain ⟨fragment', filings', hfiled', rfl⟩ := addDocument_eq_ok_iff.mp hadd
  obtain ⟨rfl, rfl⟩ := Prod.mk.inj (Except.ok.inj (hfiled.symm.trans hfiled'))
  simp only [put, Diagnostics.worst_append_eq_warning_iff, List.mem_append, or_and_right,
    exists_or, exists_warning_filingNotes]
  refine or_congr_right (or_iff_left ?_)
  rintro ⟨d, hd, hwarns⟩
  rw [severity_of_mem_replacements hd] at hwarns
  contradiction

/-- The notes of resolution: on what is not loaded, and if it succeeds, a warning
for every name that is left open. -/
theorem diagnostics_resolveReferences (strict : Bool) :
    ∃ notes, (s.resolveReferences strict).1.diagnostics =
        s.diagnostics.append (s.unfetchedNotes ++ notes) ∧
      (∀ d ∈ notes, d.severity = .warning) ∧
      (notes ≠ [] ↔ ∃ r, (s.resolveReferences strict).2 = .ok r ∧ r.unresolved ≠ []) := by
  obtain ⟨ids, hids⟩ := exists_walkAll_fst
    { s with diagnostics := s.diagnostics.append s.unfetchedNotes } Resolver.visit
    { builtins := s.builtins, strict }
  rw [resolveReferences]
  split
  · next s' r e heq =>
    obtain rfl : s' = _ := (congrArg Prod.fst heq).symm.trans hids
    refine ⟨[], by rw [List.append_nil]; rfl, by simp, ?_⟩
    simp
  · next s' r tally heq =>
    obtain rfl : s' = _ := (congrArg Prod.fst heq).symm.trans hids
    have hassoc : ∀ notes, (s.diagnostics.append s.unfetchedNotes).append notes =
        s.diagnostics.append (s.unfetchedNotes ++ notes) := fun notes =>
      congrArg Diagnostics.mk (List.append_assoc _ _ _)
    refine ⟨_, hassoc _, fun d hd => ?_, ?_⟩
    · obtain ⟨o, -, rfl⟩ := List.mem_map.mp hd
      rfl
    · simp

/-- **Resolution** makes a session warn if it succeeds and leaves a name open. -/
theorem worst_resolveReferences (strict : Bool) :
    (s.resolveReferences strict).1.diagnostics.worst = some .warning ↔
      s.diagnostics.worst = some .warning ∨
        ∃ r, (s.resolveReferences strict).2 = .ok r ∧ r.unresolved ≠ [] := by
  obtain ⟨notes, heq, hwarn, hopen⟩ := diagnostics_resolveReferences (s := s) strict
  rw [heq, ← hopen, Diagnostics.worst_append_eq_warning_iff]
  refine or_congr_right ⟨?_, fun hne => ?_⟩
  · rintro ⟨d, hd, hwarns⟩ rfl
    rw [List.append_nil] at hd
    rw [severity_of_mem_unfetchedNotes hd] at hwarns
    contradiction
  · obtain ⟨d, hd⟩ := List.exists_mem_of_ne_nil notes hne
    exact ⟨d, List.mem_append_right _ hd, hwarn d hd⟩

/-! ## notes stay -/

/-- Every operation adds its notes behind those that are there. -/
theorem notes_prefix_step {Edit : Arena → Arena → Prop} {xs : List Answer}
    (hstep : Step Edit s xs t) : s.diagnostics.items <+: t.diagnostics.items := by
  cases hstep with
  | edit b => exact List.prefix_refl _
  | refuse => exact List.prefix_refl _
  | add hadd =>
      obtain ⟨fragment, filings, -, rfl⟩ := addDocument_eq_ok_iff.mp hadd
      exact List.prefix_append _ _
  | walk hwalk =>
      cases hwalk with
      | all visit state =>
          obtain ⟨ids, hids⟩ := exists_walkAll_fst s visit state
          rw [hids]
          exact List.prefix_refl _
      | space space visit state =>
          obtain ⟨ids, hids⟩ := exists_walkSpace_fst s space visit state
          rw [hids]
          exact List.prefix_refl _
      | resolve strict =>
          obtain ⟨notes, heq, -, -⟩ := diagnostics_resolveReferences (s := s) strict
          rw [heq]
          exact List.prefix_append _ _

/-- **A session that warns goes on to warn**, whatever is done with it. -/
theorem worst_run {Edit : Arena → Arena → Prop} {xs : List Answer} (hrun : Run Edit s xs t)
    (h : s.diagnostics.worst = some .warning) : t.diagnostics.worst = some .warning := by
  have hprefix : s.diagnostics.items <+: t.diagnostics.items := by
    induction hrun with
    | start => exact List.prefix_refl _
    | step _ hstep ih => exact ih.trans (notes_prefix_step hstep)
  obtain ⟨d, hd, hwarns⟩ := Diagnostics.worst_eq_warning_iff.mp h
  exact Diagnostics.worst_eq_warning_iff.mpr ⟨d, hprefix.subset hd, hwarns⟩

end

end Session

end SchemaCatalog
