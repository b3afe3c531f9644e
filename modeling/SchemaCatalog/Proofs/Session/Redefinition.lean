import Mathlib.Data.List.TakeWhile
import SchemaCatalog.Proofs.Registry.Ledger
import SchemaCatalog.Proofs.Session.Interleaving

/-!
# SchemaCatalog.Proofs.Session.Redefinition

The notes of a session account for every declaration that was overwritten.  The
children of all added documents, each with what became of it, are *collected*
in one list (`Collected`); a document that is added again is collected again.
If `k` of them were filed under a name of a namespace, there are `k - 1` notes
that the name was redefined, and the last of these names the node that stands
there now.  That makes as many notes in a namespace as declarations were filed
there and are not there any more.  A directive without a location is noted too,
once for each time that it is met.

Within a document a redefinition is noted when a child is filed, between
documents when registries are merged.  `filter_filingNotes` and
`filter_replacements` bring both to the terms of `Ledger`, in which the
documents of a namespace are added up (`Accounted.put`).
-/

namespace SchemaCatalog

/-! ## notes, told apart -/

namespace Diagnostic

/-- The note says that a name was redefined. -/
def Redefines (b : Bucket) (name : String) (n : Diagnostic) : Prop :=
  n.code = .redefinition ∧ n.message = (redefinition n.space b name ⟨0⟩).message

instance (b : Bucket) (name : String) (n : Diagnostic) : Decidable (n.Redefines b name) :=
  inferInstanceAs (Decidable (_ ∧ _))

section

variable {space : String} {b b' : Bucket} {name name' : String} {node : NodeId}

/-- The message of a redefinition names the bucket and, in quotes, the name. -/
theorem toList_message_redefinition :
    (redefinition space b name node).message.toList =
      b.name.toList ++ ' ' :: ("'".toList ++
        (name.toList ++ "' redefined, later declaration wins".toList)) := by
  simp [redefinition, toString]

variable (space node)

/-- **A message tells the name** in its bucket: the bucket is what stands before
the first blank. -/
theorem redefines_redefinition :
    (redefinition space b' name' node).Redefines b name ↔ (b', name') = (b, name) := by
  constructor
  · rintro ⟨-, hmessage⟩
    have hlist := congrArg String.toList hmessage
    rw [toList_message_redefinition, toList_message_redefinition] at hlist
    have hword : ∀ c : Bucket, ∀ x ∈ c.name.toList, (x != ' ') = true := by
      intro c
      have hall : c.name.toList.all (· != ' ') = true := by cases c <;> rfl
      exact List.all_eq_true.mp hall
    have hbucket : b' = b := by
      have hfront := congrArg (List.takeWhile (· != ' ')) hlist
      rw [List.takeWhile_append_of_pos (hword b'), List.takeWhile_append_of_pos (hword b)] at hfront
      exact Bucket.name_injective (String.toList_inj.mp (by simpa using hfront))
    subst hbucket
    have hrest := List.cons_inj_right _ |>.mp (List.append_cancel_left hlist)
    have hname := List.append_cancel_right (List.append_cancel_left hrest)
    rw [String.toList_inj.mp hname]
  · intro h
    obtain ⟨rfl, rfl⟩ := Prod.mk.inj h
    exact ⟨rfl, rfl⟩

/-- A missing location is no redefinition. -/
theorem not_redefines_missingLocation :
    ¬ (missingLocation space node).Redefines b name := by
  rintro ⟨hcode, -⟩
  contradiction

end

end Diagnostic

/-- A directive that names no location, and is not built in. -/
def Declaration.Unlocated (builtins : Builtins) (space : String) (d : Declaration) : Prop :=
  (d.kind = .inclusion ∨ d.kind = .importation) ∧ d.attr? "schemaLocation" = none ∧
    d.attr? "location" = none ∧ ¬ d.IsBuiltin builtins space

instance (builtins : Builtins) (space : String) (d : Declaration) :
    Decidable (d.Unlocated builtins space) :=
  inferInstanceAs (Decidable (_ ∧ _ ∧ _ ∧ ¬ _))

/-- A filing misses its location exactly if the declaration gives none. -/
theorem Registry.missingLocation_fileDeclaration (r : Registry) (builtins : Builtins) (id : NodeId)
    (d : Declaration) :
    (r.fileDeclaration builtins id d).2 = .missingLocation ↔
      d.Unlocated builtins r.targetSpace := by
  rw [filing_fileDeclaration]
  by_cases hbuiltin : d.IsBuiltin builtins r.targetSpace
  · rw [if_pos hbuiltin]
    exact iff_of_false Filing.noConfusion fun h => h.2.2.2 hbuiltin
  · rw [if_neg hbuiltin]
    by_cases hkind : d.kind = .inclusion ∨ d.kind = .importation
    · rw [if_pos hkind, Declaration.directive?, if_pos ⟨hkind, hbuiltin⟩]
      cases hschema : d.attr? "schemaLocation" with
      | some location => simp [Declaration.Unlocated, hschema]
      | none =>
          cases hlocation : d.attr? "location" with
          | some location => simp [Declaration.Unlocated, hlocation]
          | none => simp [Declaration.Unlocated, hschema, hlocation, hkind, hbuiltin]
    · rw [if_neg hkind]
      refine iff_of_false ?_ fun h => hkind h.1
      split
      · exact Filing.noConfusion
      · exact Filing.noConfusion

namespace Session

/-! ## notes of an addition -/

section

variable (space : String) (filings : List (NodeId × Filing))

/-- What filing notes, child by child. -/
theorem filingNotes_cons (id : NodeId) (filing : Filing) :
    filingNotes space ((id, filing) :: filings) =
      (match filing with
        | .declared b name (some _) => [.redefinition space b name id]
        | .missingLocation => [.missingLocation space id]
        | _ => []) ++ filingNotes space filings := by
  rw [filingNotes, List.filterMap_cons]
  cases filing with
  | declared b name replaced =>
      cases replaced with
      | none => rfl
      | some old => rfl
  | reference reference => rfl
  | missingLocation => rfl
  | builtin => rfl
  | ignored => rfl

/-- Filing notes that a name is redefined for each node that is put over
another one. -/
theorem filter_filingNotes (b : Bucket) (name : String) :
    (filingNotes space filings).filter (·.Redefines b name) =
      (Registry.overwrites b name filings).map (.redefinition space b name) := by
  induction filings with
  | nil => rfl
  | cons p filings ih =>
      obtain ⟨id, filing⟩ := p
      rw [filingNotes_cons, List.filter_append, ih, Registry.overwrites_cons, List.map_append]
      congr 1
      cases filing with
      | declared b' name' replaced =>
          cases replaced with
          | none => simp
          | some old =>
              by_cases hname : (b', name') = (b, name)
              · have hredefines := (Diagnostic.redefines_redefinition space id).mpr hname
                obtain ⟨rfl, rfl⟩ := Prod.mk.inj hname
                simp [hredefines]
              · have hredefines := mt (Diagnostic.redefines_redefinition space id).mp hname
                rw [Prod.mk.injEq] at hname
                simp [hredefines, hname]
      | missingLocation => simp [Diagnostic.not_redefines_missingLocation, Filing.files]
      | reference reference => rfl
      | builtin => rfl
      | ignored => rfl

/-- All in all it makes as many of these notes as nodes were put over others. -/
theorem countP_filingNotes :
    (filingNotes space filings).countP (·.code = .redefinition) =
      filings.countP (·.2.replaces) := by
  induction filings with
  | nil => rfl
  | cons p filings ih =>
      obtain ⟨id, filing⟩ := p
      rw [filingNotes_cons, List.countP_append, ih, List.countP_cons, Nat.add_comm]
      congr 1
      cases filing with
      | declared b name replaced =>
          cases replaced with
          | none => rfl
          | some old => rfl
      | missingLocation => rfl
      | reference reference => rfl
      | builtin => rfl
      | ignored => rfl

/-- The notes about missing locations are those of the filings that miss one. -/
theorem filter_filingNotes_missing :
    (filingNotes space filings).filter (·.code = .missingLocation) =
      (filings.filter (·.2 = .missingLocation)).map fun p => .missingLocation space p.1 := by
  induction filings with
  | nil => rfl
  | cons p filings ih =>
      obtain ⟨id, filing⟩ := p
      rw [filingNotes_cons, List.filter_append, ih, List.filter_cons]
      cases filing with
      | declared b name replaced =>
          cases replaced with
          | none => rfl
          | some old => rfl
      | missingLocation => rfl
      | reference reference => rfl
      | builtin => rfl
      | ignored => rfl

end

section

variable (dedup : Bool) (target source : Registry)

/-- A merge notes that a name is redefined if both registries have it, with the
node of the second. -/
theorem filter_mergeNotes (b : Bucket) (name : String) :
    (mergeNotes (target.absorb dedup source) (target.absorbReport dedup source).redefined).filter
        (·.Redefines b name) =
      ((target.lookup b name).bind fun _ => source.lookup b name).toList.map
        (.redefinition target.targetSpace b name) := by
  have hnote : ∀ (p : Bucket × String) (id : Option NodeId),
      (id.map (Diagnostic.redefinition target.targetSpace p.1 p.2)).filter (·.Redefines b name) =
        if decide (p = (b, name)) then id.map (Diagnostic.redefinition target.targetSpace p.1 p.2)
        else none := by
    intro p id
    cases id with
    | none => simp
    | some id =>
        have hredefines : (Diagnostic.redefinition target.targetSpace p.1 p.2 id).Redefines b name ↔
            p = (b, name) := Diagnostic.redefines_redefinition _ _
        simp only [Option.map_some, Option.filter_some, hredefines]
  rw [mergeNotes, List.filter_filterMap]
  calc (target.absorbReport dedup source).redefined.filterMap _
      = (target.absorbReport dedup source).redefined.filterMap fun p =>
          if decide (p = (b, name)) then ((target.absorb dedup source).lookup p.1 p.2).map
            (Diagnostic.redefinition target.targetSpace p.1 p.2) else none :=
        List.filterMap_congr fun p _ => hnote p _
    _ = ((target.absorbReport dedup source).redefined.filter (· = (b, name))).filterMap fun p =>
          ((target.absorb dedup source).lookup p.1 p.2).map
            (Diagnostic.redefinition target.targetSpace p.1 p.2) := List.filterMap_filter.symm
    _ = _ := by
        rw [Registry.filter_redefined]
        cases htarget : target.lookup b name with
        | none => simp
        | some old =>
            cases hsource : source.lookup b name with
            | none => simp
            | some new => simp [Registry.lookup_absorb, hsource]

/-- All in all it makes a note for each name of its report. -/
theorem length_mergeNotes :
    (mergeNotes (target.absorb dedup source)
        (target.absorbReport dedup source).redefined).length =
      (target.absorbReport dedup source).redefined.length := by
  refine List.filterMap_length_eq_length.mpr fun p hp => ?_
  obtain ⟨-, hsource⟩ := Registry.mem_redefined.mp hp
  rw [Option.isSome_map, Registry.lookup_absorb, Option.isSome_or,
    Option.isSome_iff_ne_none.mpr hsource, Bool.true_or]

/-- A merge reports redefinitions only. -/
theorem code_of_mem_mergeNotes {merged : Registry} {redefined : List (Bucket × String)}
    {n : Diagnostic} (h : n ∈ mergeNotes merged redefined) : n.code = .redefinition := by
  obtain ⟨p, -, hn⟩ := List.mem_filterMap.mp h
  obtain ⟨id, -, rfl⟩ := Option.map_eq_some_iff.mp hn
  rfl

end

/-! ## what has been collected -/

end Session

/-- A child of a document that was added, and what became of it. -/
structure Occurrence where
  /-- The target namespace of the document. -/
  space : String
  node : NodeId
  declaration : Declaration
  filing : Filing

namespace Session

/-- The children of an added document, as they are then. -/
def occurrences (a : Arena) (space : String) (filings : List (NodeId × Filing)) :
    List Occurrence :=
  filings.filterMap fun p =>
    (a.get? p.1).map fun d => { space, node := p.1, declaration := d, filing := p.2 }

/-- The session comes of adding documents in any order and any number of times,
`log` being all children that were met in this; in between, declarations may
change in every way, but none is removed. -/
inductive Collected (builtins : Builtins) (dedup : Bool) : List Occurrence → Session → Prop
  | new : Collected builtins dedup [] { builtins, dedup }
  | edit {log : List Occurrence} {s : Session} (h : Collected builtins dedup log s) (a : Arena)
    (hsize : s.arena.size ≤ a.size) : Collected builtins dedup log { s with arena := a }
  | add {log : List Occurrence} {s s' : Session} {root : NodeId} {d : Declaration}
    {fragment : Registry} {filings : List (NodeId × Filing)} (h : Collected builtins dedup log s)
    (hroot : s.arena.get? root = some d)
    (hfile : (Registry.ofRoot root d).fileChildren s.builtins s.arena root =
      (fragment, .ok filings))
    (hadd : s.addDocument root = .ok s') :
    Collected builtins dedup
      (log ++ occurrences s.arena (Registry.targetSpaceOf d) filings) s'

section

variable {a : Arena} {space : String} {filings : List (NodeId × Filing)}

/-- An occurrence is a filing together with the declaration that is filed. -/
theorem mem_occurrences {o : Occurrence} (h : o ∈ occurrences a space filings) :
    o.space = space ∧ (o.node, o.filing) ∈ filings ∧ a.get? o.node = some o.declaration := by
  obtain ⟨p, hp, ho⟩ := List.mem_filterMap.mp h
  obtain ⟨d, hd, rfl⟩ := Option.map_eq_some_iff.mp ho
  exact ⟨rfl, hp, hd⟩

/-- Every child is collected. -/
theorem map_occurrences (space : String) (h : ∀ p ∈ filings, a.Valid p.1) :
    (occurrences a space filings).map (fun o => (o.node, o.filing)) = filings := by
  induction filings with
  | nil => rfl
  | cons p filings ih =>
      obtain ⟨⟨d, hd⟩, hrest⟩ := List.forall_mem_cons.mp (by simpa only [Arena.valid_iff] using h)
      have hcons : occurrences a space (p :: filings) =
          { space, node := p.1, declaration := d, filing := p.2 } ::
            occurrences a space filings := by
        simp [occurrences, hd]
      rw [hcons, List.map_cons, ih fun q hq => Arena.valid_iff.mpr (hrest q hq)]

/-- The occurrences of a namespace are counted by their filings. -/
theorem countP_occurrences (h : ∀ p ∈ filings, a.Valid p.1) (P : Filing → Bool) :
    (occurrences a space filings).countP (fun o => o.space = space ∧ P o.filing) =
      filings.countP (fun p => P p.2) := by
  have hcongr : (occurrences a space filings).countP (fun o => o.space = space ∧ P o.filing) =
      (occurrences a space filings).countP fun o => P o.filing := by
    refine List.countP_congr fun o ho => ?_
    simp [(mem_occurrences ho).1]
  rw [hcongr]
  conv_rhs => rw [← map_occurrences space h, List.countP_map]
  rfl

/-- The directives without a location among the children. -/
theorem map_missing_occurrences (h : ∀ p ∈ filings, a.Valid p.1) :
    (filings.filter (·.2 = .missingLocation)).map
        (fun p => Diagnostic.missingLocation space p.1) =
      ((occurrences a space filings).filter
        fun o => o.space = space ∧ o.filing = .missingLocation).map
          fun o => .missingLocation space o.node := by
  conv_lhs => rw [← map_occurrences space h, List.filter_map, List.map_map]
  congr 1
  refine List.filter_congr fun o ho => ?_
  simp [(mem_occurrences ho).1]

/-- Occurrences of another namespace do not count. -/
theorem countP_occurrences_of_ne {space' : String} (hne : space ≠ space') (P : Filing → Bool) :
    (occurrences a space filings).countP (fun o => o.space = space' ∧ P o.filing) = 0 := by
  refine List.countP_eq_zero.mpr fun o ho => ?_
  simp [(mem_occurrences ho).1, hne]

end

/-- What the notes of a session say of a namespace, next to its registry and to
what has been collected there. -/
structure Accounted (log : List Occurrence) (s : Session) (space : String) : Prop where
  ledger : ∀ b name, ∃ above,
    (s.diagnostics.inSpace space).filter (·.Redefines b name) =
      above.map (.redefinition space b name) ∧
    Ledger above ((s.registries.get? space).bind (·.lookup b name))
      (log.countP fun o => o.space = space ∧ o.filing.files b name)
  sum : ((s.registries.get? space).map (·.size)).getD 0 +
      (s.diagnostics.inSpace space).countP (·.code = .redefinition) =
    log.countP fun o => o.space = space ∧ o.filing.declares
  missing : (s.diagnostics.inSpace space).filter (·.code = .missingLocation) =
    (log.filter fun o => o.space = space ∧ o.filing = .missingLocation).map
      fun o => .missingLocation space o.node

/-- A document of another namespace changes nothing. -/
theorem Accounted.frame {log : List Occurrence} {s t : Session} {space : String}
    (h : Accounted log s space) (hagree : AgreeOn space t s) {a : Arena} {space' : String}
    (hne : space' ≠ space) (filings : List (NodeId × Filing)) :
    Accounted (log ++ occurrences a space' filings) t space := by
  have hnone : ∀ P : Filing → Bool, (log ++ occurrences a space' filings).countP
      (fun o => o.space = space ∧ P o.filing) = log.countP fun o => o.space = space ∧ P o.filing := by
    intro P
    rw [List.countP_append, countP_occurrences_of_ne hne, Nat.add_zero]
  constructor
  · intro b name
    rw [hagree.notes, hagree.registry, hnone]
    exact h.ledger b name
  · rw [hagree.notes, hagree.registry, hnone]
    exact h.sum
  · have hmissing : (occurrences a space' filings).filter
        (fun o => o.space = space ∧ o.filing = .missingLocation) = [] := by
      refine List.filter_eq_nil_iff.mpr fun o ho => ?_
      simp [(mem_occurrences ho).1, hne]
    rw [hagree.notes, List.filter_append, hmissing, List.append_nil]
    exact h.missing

section

variable {s : Session} {fragment : Registry} {filings : List (NodeId × Filing)}

/-- The notes on the namespace of a document when it is put there. -/
theorem inSpace_put :
    (s.put fragment filings).diagnostics.inSpace fragment.targetSpace =
      s.diagnostics.inSpace fragment.targetSpace ++
        (filingNotes fragment.targetSpace filings ++ s.replacements fragment) := by
  have hall : (filingNotes fragment.targetSpace filings ++ s.replacements fragment).filter
      (fun n => n.space = fragment.targetSpace) =
      filingNotes fragment.targetSpace filings ++ s.replacements fragment := by
    refine List.filter_eq_self.mpr fun n hn => ?_
    rcases List.mem_append.mp hn with hn | hn
    · exact decide_eq_true (space_of_mem_filingNotes hn)
    · exact decide_eq_true (space_of_mem_replacements hn)
  rw [put, Diagnostics.inSpace_append, hall]

/-- What a fragment replaces is what its merge reports as redefined. -/
theorem replacements_eq (h : s.Rooted) {existing : Registry}
    (hget : s.registries.get? fragment.targetSpace = some existing) :
    s.replacements fragment = mergeNotes (existing.absorb s.dedup fragment)
      (existing.absorbReport s.dedup fragment).redefined := by
  have hspace := h.keyed _ _ hget
  simp only [replacements, hget, Registry.mergeWith, if_pos hspace]

/-- A name is replaced exactly if the registry and the fragment both declare it. -/
theorem filter_replacements (h : s.Rooted) (b : Bucket) (name : String) :
    (s.replacements fragment).filter (·.Redefines b name) =
      ((((s.registries.get? fragment.targetSpace).bind (·.lookup b name)).bind
        fun _ => fragment.lookup b name).toList).map
          (.redefinition fragment.targetSpace b name) := by
  cases hget : s.registries.get? fragment.targetSpace with
  | none => simp [replacements, hget]
  | some existing =>
      rw [replacements_eq h hget, filter_mergeNotes, h.keyed _ _ hget, Option.bind_some]

/-- The findings about replacements are redefinitions. -/
theorem code_of_mem_replacements {n : Diagnostic} (hn : n ∈ s.replacements fragment) :
    n.code = .redefinition := by
  rw [replacements] at hn
  split at hn
  · contradiction
  · exact code_of_mem_mergeNotes hn

/-- A merge notes each declaration that is not there any more. -/
theorem size_joined (h : s.Rooted) (fragment : Registry) :
    (s.joined fragment).size + (s.replacements fragment).length =
      ((s.registries.get? fragment.targetSpace).map (·.size)).getD 0 + fragment.size := by
  cases hget : s.registries.get? fragment.targetSpace with
  | none => simp [joined, replacements, hget]
  | some existing =>
      rw [joined_eq_absorb h hget, replacements_eq h hget, length_mergeNotes,
        Registry.size_absorb]
      rfl

end

/-- **A document is added up** with those before it. -/
theorem Accounted.put {log : List Occurrence} {s : Session} (hrooted : s.Rooted)
    {fragment : Registry} {filings : List (NodeId × Filing)}
    (h : Accounted log s fragment.targetSpace) (hvalid : ∀ p ∈ filings, s.arena.Valid p.1)
    (hledger : ∀ b name, Ledger (Registry.overwrites b name filings) (fragment.lookup b name)
      (filings.countP fun p => p.2.files b name))
    (hsize : fragment.size + filings.countP (fun p => p.2.replaces) =
      filings.countP fun p => p.2.declares) :
    Accounted (log ++ occurrences s.arena fragment.targetSpace filings)
      (s.put fragment filings) fragment.targetSpace := by
  have hget : (s.put fragment filings).registries.get? fragment.targetSpace =
      some (s.joined fragment) := Table.get?_insert_self _ _ _
  constructor
  · intro b name
    obtain ⟨above, hnotes, hbefore⟩ := h.ledger b name
    have hafter := hbefore.join (hledger b name)
    rw [← lookup_joined hrooted, ← countP_occurrences hvalid (·.files b name),
      ← List.countP_append] at hafter
    refine ⟨_, ?_, by rw [hget]; exact hafter⟩
    rw [inSpace_put, List.filter_append, List.filter_append, hnotes, filter_filingNotes,
      filter_replacements hrooted, List.map_append, List.map_append]
  · have hreplacements : (s.replacements fragment).countP (·.code = .redefinition) =
        (s.replacements fragment).length :=
      List.countP_eq_length.mpr fun n hn => decide_eq_true (code_of_mem_replacements hn)
    have hjoined := size_joined hrooted fragment
    have hbefore := h.sum
    rw [hget, inSpace_put, List.countP_append, List.countP_append, List.countP_append,
      countP_filingNotes, hreplacements, countP_occurrences hvalid, Option.map_some,
      Option.getD_some]
    omega
  · have hreplacements : (s.replacements fragment).filter (·.code = .missingLocation) = [] := by
      refine List.filter_eq_nil_iff.mpr fun n hn => ?_
      simp [code_of_mem_replacements hn]
    rw [inSpace_put, List.filter_append, List.filter_append, h.missing, filter_filingNotes_missing,
      hreplacements, List.append_nil, map_missing_occurrences hvalid, List.filter_append,
      List.map_append]

section

variable {builtins : Builtins} {dedup : Bool} {log : List Occurrence} {s : Session}

/-- A session with a log of its filings is built. -/
theorem Collected.built (h : Collected builtins dedup log s) : s.Built := by
  induction h with
  | new => exact .new builtins dedup
  | edit _ a hsize ih => exact ih.edit a hsize
  | add _ _ _ hadd ih => exact ih.add hadd

/-- The built-in names are those that the session started with. -/
theorem Collected.builtins_eq (h : Collected builtins dedup log s) : s.builtins = builtins := by
  induction h with
  | new => rfl
  | edit _ a _ ih => exact ih
  | add _ _ _ hadd ih =>
      obtain ⟨d, hadd⟩ := addition_of_addDocument hadd
      exact hadd.builtins.trans ih

/-- Adding a document is putting what its children were filed as. -/
theorem eq_put_of_addDocument {s s' : Session} {root : NodeId} {d : Declaration}
    {fragment : Registry} {filings : List (NodeId × Filing)} (hroot : s.arena.get? root = some d)
    (hfile : (Registry.ofRoot root d).fileChildren s.builtins s.arena root =
      (fragment, .ok filings))
    (hadd : s.addDocument root = .ok s') : s' = s.put fragment filings := by
  simp only [Registry.fileChildren, hroot] at hfile
  rw [addDocument_eq, filed, hroot] at hadd
  simp only [hfile] at hadd
  exact (Except.ok.inj hadd).symm

/-- What became of a child was decided by a registry of the namespace. -/
theorem Collected.exists_filing (h : Collected builtins dedup log s) {o : Occurrence}
    (ho : o ∈ log) : ∃ r : Registry, r.targetSpace = o.space ∧
      o.filing = (r.fileDeclaration builtins o.node o.declaration).2 := by
  induction h with
  | new => contradiction
  | edit _ a _ ih => exact ih ho
  | @add log s s' root d fragment filings h hroot hfile _ ih =>
      rcases List.mem_append.mp ho with ho | ho
      · exact ih ho
      · obtain ⟨hspace, hmem, hget⟩ := mem_occurrences ho
        simp only [Registry.fileChildren, hroot] at hfile
        obtain ⟨-, -, rfl⟩ := Registry.fileAll_eq_ok hfile
        obtain ⟨e, r, hlook, htarget, hfiling⟩ := Registry.exists_of_mem_filingsLooked _ _ _ hmem
        obtain rfl := Option.some.inj (hget.symm.trans (Arena.mem_look.mp hlook).2)
        refine ⟨r, htarget.trans hspace.symm, ?_⟩
        rw [← h.builtins_eq]
        exact hfiling

/-- **Every namespace is accounted for.** -/
theorem Collected.accounted (h : Collected builtins dedup log s) (space : String) :
    Accounted log s space := by
  induction h with
  | new => exact ⟨fun b name => ⟨[], rfl, .nil⟩, rfl, rfl⟩
  | edit _ a _ ih => exact ⟨ih.ledger, ih.sum, ih.missing⟩
  | @add log s s' root d fragment filings h hroot hfile hadd ih =>
      obtain rfl := eq_put_of_addDocument hroot hfile hadd
      simp only [Registry.fileChildren, hroot] at hfile
      obtain ⟨-, rfl, rfl⟩ := Registry.fileAll_eq_ok hfile
      have hspace := targetSpace_fragment s root d
      rw [fragment] at hspace
      by_cases heq : Registry.targetSpaceOf d = space
      · subst heq
        rw [← hspace] at ih ⊢
        refine ih.put h.built.rooted ?_ (Registry.ledger_ofRoot _ _ _ _)
          (Registry.size_ofRoot _ _ _ _)
        intro p hp
        obtain ⟨e, r, hlook, -, -⟩ := Registry.exists_of_mem_filingsLooked _ _ _ hp
        exact Arena.valid_iff.mpr ⟨e, (Arena.mem_look.mp hlook).2⟩
      · exact ih.frame (agreeOn_put (hspace ▸ heq) _) heq _

/-- **No silent overwrite.**  If `k` of the collected children were filed under
a name of a namespace, then `k - 1` notes say that it was redefined, and the
last of them names the node that the name leads to.  The declarations of the
namespace and the notes on redefinitions there are together as many as children
were filed there.  The notes on missing locations are those on the directives
that name none and are not built in, each as often as it was met. -/
theorem no_silent_overwrite (h : Collected builtins dedup log s) (space : String) :
    (∀ b name,
      let k := log.countP fun o => o.space = space ∧ o.filing.files b name
      let notes := (s.diagnostics.inSpace space).filter (·.Redefines b name)
      notes.length = k - 1 ∧
      (1 < k → ∃ id, (s.registries.get? space).bind (·.lookup b name) = some id ∧
        notes.getLast? = some (.redefinition space b name id))) ∧
    ((s.registries.get? space).map (·.size)).getD 0 +
        (s.diagnostics.inSpace space).countP (·.code = .redefinition) =
      (log.countP fun o => o.space = space ∧ o.filing.declares) ∧
    (s.diagnostics.inSpace space).filter (·.code = .missingLocation) =
      (log.filter fun o => o.space = space ∧ o.declaration.Unlocated builtins space).map
        fun o => .missingLocation space o.node := by
  have haccounted := h.accounted space
  refine ⟨fun b name => ?_, haccounted.sum, ?_⟩
  · obtain ⟨above, hnotes, hledger⟩ := haccounted.ledger b name
    simp only [hnotes, List.length_map]
    refine ⟨hledger.length_above, fun hk => ?_⟩
    obtain ⟨id, hentry, hlast⟩ := hledger.exists_last hk
    exact ⟨id, hentry, by rw [List.getLast?_map, hlast, Option.map_some]⟩
  · rw [haccounted.missing]
    congr 1
    refine List.filter_congr fun o ho => ?_
    obtain ⟨r, hspace, hfiling⟩ := h.exists_filing ho
    have hmissing := r.missingLocation_fileDeclaration builtins o.node o.declaration
    rw [← hfiling, hspace] at hmissing
    simp only [decide_eq_decide]
    refine and_congr_right fun heq => ?_
    rw [← heq]
    exact hmissing

end

/-! Two documents of one namespace.  The first one declares a name twice and has
a directive without a location, the second one declares the name once more, and
then the first one is added again. -/

def repeatedArena : Arena where
  nodes := #[
    { kind := .schema, space := "urn:a", children := [⟨2⟩, ⟨3⟩, ⟨4⟩] },
    { kind := .schema, space := "urn:a", children := [⟨5⟩] },
    { kind := .element, name := some "x", space := "urn:a" },
    { kind := .element, name := some "x", space := "urn:a" },
    { kind := .inclusion, space := "urn:a" },
    { kind := .element, name := some "x", space := "urn:a" }]

def onceSession : Session :=
  ((({ arena := repeatedArena } : Session).addDocument ⟨0⟩).toOption).getD {}

def bothSession : Session := ((onceSession.addDocument ⟨1⟩).toOption).getD {}

/-- The session with the first document added again. -/
def againSession : Session := ((bothSession.addDocument ⟨0⟩).toOption).getD {}

/-- The children of the first document, as they are met each time. -/
def repeatedOccurrences : List Occurrence :=
  [⟨"urn:a", ⟨2⟩, { kind := .element, name := some "x", space := "urn:a" },
      .declared .elements "x" none⟩,
    ⟨"urn:a", ⟨3⟩, { kind := .element, name := some "x", space := "urn:a" },
      .declared .elements "x" (some ⟨2⟩)⟩,
    ⟨"urn:a", ⟨4⟩, { kind := .inclusion, space := "urn:a" }, .missingLocation⟩]

def againOccurrences : List Occurrence :=
  repeatedOccurrences ++
    [⟨"urn:a", ⟨5⟩, { kind := .element, name := some "x", space := "urn:a" },
      .declared .elements "x" none⟩] ++
    repeatedOccurrences

theorem collected_againSession : Collected .xsd true againOccurrences againSession := by
  have hedit : Collected .xsd true [] { arena := repeatedArena } :=
    Collected.new.edit repeatedArena (by decide)
  have honce : ({ arena := repeatedArena } : Session).addDocument ⟨0⟩ = .ok onceSession := rfl
  have hboth : onceSession.addDocument ⟨1⟩ = .ok bothSession := rfl
  have hagain : bothSession.addDocument ⟨0⟩ = .ok againSession := rfl
  exact ((hedit.add rfl rfl honce).add rfl rfl hboth).add rfl rfl hagain

/-- The name was filed five times, so there are four notes, and the last one
names the node that was filed last. -/
theorem no_silent_overwrite_again : Collected .xsd true againOccurrences againSession ∧
    ((againSession.diagnostics.inSpace "urn:a").filter (·.Redefines .elements "x")).length = 4 ∧
    ∃ id, (againSession.registries.get? "urn:a").bind (·.lookup .elements "x") = some id ∧
      ((againSession.diagnostics.inSpace "urn:a").filter (·.Redefines .elements "x")).getLast? =
        some (.redefinition "urn:a" .elements "x" id) := by
  have hcount : againOccurrences.countP
      (fun o : Occurrence => o.space = "urn:a" ∧ o.filing.files .elements "x") = 5 := by
    decide
  obtain ⟨hlength, hlast⟩ :=
    (no_silent_overwrite collected_againSession "urn:a").1 .elements "x"
  rw [hcount] at hlength hlast
  exact ⟨collected_againSession, hlength, hlast (by decide)⟩

end Session

end SchemaCatalog
