import SchemaCatalog.Proofs.Walk.History

/-!
# SchemaCatalog.Proofs.Session.Prefixes

The prefix table of a registry against the bindings of the document root that
it was taken from.  The table is made by going through all attributes of the
root, while a binding looks up one of them, so they could differ where two
attributes bind the same prefix.  There is one such pair: `xmlns` and `xmlns:`,
with nothing behind the colon, both bind the empty prefix, and in the table the
latter wins (`get?_prefixesOf`).  For any other prefix they agree
(`Registry.TakesPrefixes`).

A registry keeps its table and its first root whatever happens to the session
(`Registry.Outgrows`), and the root keeps its attributes as long as the arena is
only added to, so what holds of a new registry holds for good
(`prefixes_of_first_document`).
-/

namespace SchemaCatalog

namespace Registry

/-! ## the table of a document root -/

/-- A key with a colon is not the key of the default namespace. -/
theorem colon_append_ne (pfx : String) : "xmlns:" ++ pfx ≠ "xmlns" := by
  intro h
  have hlength := congrArg (fun s : String => s.toList.length) h
  simp at hlength

/-- A prefix is bound by the attribute that has it behind the colon; the empty
prefix is also bound by `xmlns`. -/
theorem boundPrefix?_eq_some_iff {key pfx : String} :
    boundPrefix? key = some pfx ↔ key = "xmlns" ∧ pfx = "" ∨ key = "xmlns:" ++ pfx := by
  rw [boundPrefix?]
  split
  · next h =>
    subst h
    simp [(colon_append_ne pfx).symm, eq_comm]
  · next h =>
    split
    · next hp =>
      obtain ⟨q, hq⟩ := List.isPrefixOf_iff_prefix.mp hp
      obtain rfl : key = "xmlns:" ++ String.ofList q := by
        apply String.toList_injective
        simpa using hq.symm
      simp [h]
    · next hp =>
      simp only [h, false_and, false_or, reduceCtorEq, false_iff]
      rintro rfl
      simp at hp

/-- The plain key stands before all keys with the colon. -/
theorem find_plain_eq_none {rest : List (String × String)}
    (hbelow : ∀ e ∈ rest, compare ("xmlns:" ++ "") e.1 = .lt) : Table.find "xmlns" rest = none := by
  have hplain : compare "xmlns" "xmlns:" = .lt := by decide +kernel
  exact Table.find_eq_none_of_lt fun e he => Std.TransCmp.lt_trans hplain (hbelow e he)

/-- Going through attributes in the order of their keys, the one with the colon
comes last and wins. -/
theorem get?_foldl_boundPrefix {attributes : List (String × String)} (h : Increasing attributes)
    (t : Table String String) (pfx : String) :
    ((attributes.filterMap fun (key, uri) => (boundPrefix? key).map fun p => (p, uri)).foldl
        (fun t e => t.insert e.1 e.2) t).get? pfx =
      (Table.find ("xmlns:" ++ pfx) attributes).or
        ((if pfx = "" then Table.find "xmlns" attributes else none).or (t.get? pfx)) := by
  induction attributes generalizing t with
  | nil => simp [Table.find]
  | cons e rest ih =>
      obtain ⟨key, uri⟩ := e
      obtain ⟨hfirst, hrest⟩ := List.pairwise_cons.mp h
      have hlater : Table.find key rest = none := Table.find_eq_none_of_lt hfirst
      have hfind : ∀ q, Table.find q ((key, uri) :: rest) =
          if q = key then some uri else Table.find q rest := by
        intro q
        by_cases hq : q = key <;> simp [hq, Table.find]
      rw [hfind, hfind]
      cases hbound : boundPrefix? key with
      | none =>
          have hnot : ∀ p, ¬ (key = "xmlns" ∧ p = "" ∨ key = "xmlns:" ++ p) := by
            intro p
            rw [← boundPrefix?_eq_some_iff, hbound]
            simp
          have hplain : "xmlns" ≠ key := fun heq => hnot "" (.inl ⟨heq.symm, rfl⟩)
          have hcolon : "xmlns:" ++ pfx ≠ key := fun heq => hnot pfx (.inr heq.symm)
          rw [List.filterMap_cons_none (by simp [hbound]), ih hrest, if_neg hplain, if_neg hcolon]
      | some p =>
          rw [List.filterMap_cons_some (by simp only [hbound, Option.map_some]; rfl),
            List.foldl_cons, ih hrest, Table.get?_insert]
          rcases boundPrefix?_eq_some_iff.mp hbound with ⟨rfl, rfl⟩ | rfl
          · by_cases hpfx : pfx = ""
            · simp [hpfx, hlater]
            · simp [hpfx, colon_append_ne]
          · by_cases hpfx : pfx = p
            · -- the keys that follow are above this one, and so above `xmlns`
              have hbelow : Table.find "xmlns" rest = none ∨ p ≠ "" := by
                by_cases hp : p = ""
                · subst hp
                  exact .inl (find_plain_eq_none hfirst)
                · exact .inr hp
              rcases hbelow with hbelow | hp
              · simp [hpfx, hlater, hbelow]
              · simp [hpfx, hlater, hp]
            · have hplain : "xmlns" ≠ "xmlns:" ++ p := (colon_append_ne p).symm
              simp [hpfx, hplain]

/-- A root's table has what the colon binds, else what the root binds. -/
theorem get?_prefixesOf (d : Declaration) (pfx : String) :
    (prefixesOf d).get? pfx = (d.attr? ("xmlns:" ++ pfx)).or (d.binding? pfx) := by
  have hfold := get?_foldl_boundPrefix d.attributes.increasing Table.empty pfx
  rw [Table.get?_empty, Option.or_none] at hfold
  rw [prefixesOf, Table.ofList, hfold, Declaration.binding?, Declaration.bindingKey]
  by_cases h : pfx = ""
  · simp [h, Declaration.attr?, Table.get?]
  · simp [h, Declaration.attr?, Table.get?]

/-- A registry's prefixes are those of the document root `d`, where `xmlns:`
overrides `xmlns`. -/
structure TakesPrefixes (r : Registry) (d : Declaration) : Prop where
  agrees : ∀ pfx, (pfx = "" → d.attr? "xmlns:" = none) → r.spaceOfPrefix? pfx = d.binding? pfx
  overrides : ∀ uri, d.attr? "xmlns:" = some uri → r.spaceOfPrefix? "" = some uri

/-- A registry with the prefixes of a declaration takes its bindings. -/
theorem takesPrefixes_of_eq {r : Registry} {d : Declaration} (h : r.prefixes = prefixesOf d) :
    r.TakesPrefixes d where
  agrees := by
    intro pfx hpfx
    rw [spaceOfPrefix?, h, get?_prefixesOf]
    by_cases hempty : pfx = ""
    · subst hempty
      have hnone : d.attr? ("xmlns:" ++ "") = none := by simpa using hpfx rfl
      rw [hnone, Option.none_or]
    · rw [Declaration.binding?, Declaration.bindingKey, if_neg hempty, Option.or_self]
  overrides := by
    intro uri huri
    have hcolon : d.attr? ("xmlns:" ++ "") = some uri := by simpa using huri
    rw [spaceOfPrefix?, h, get?_prefixesOf, hcolon, Option.some_or]

/-! ## registries that grow -/

/-- `r` has come from `first` by additions of further documents. -/
structure Outgrows (r first : Registry) : Prop where
  prefixes : r.prefixes = first.prefixes
  roots : first.roots <+: r.roots

theorem Outgrows.refl (r : Registry) : r.Outgrows r := ⟨rfl, List.prefix_rfl⟩

/-- Outgrowing is transitive. -/
theorem Outgrows.trans {r r' r'' : Registry} (h : r''.Outgrows r') (h' : r'.Outgrows r) :
    r''.Outgrows r :=
  ⟨h.prefixes.trans h'.prefixes, h'.roots.trans h.roots⟩

/-- A merge keeps the prefixes of the target, and its roots in front. -/
theorem outgrows_mergeWith (dedup : Bool) (target source : Registry) :
    (target.mergeWith dedup source).1.Outgrows target := by
  rw [mergeWith]
  split
  · refine ⟨rfl, ?_⟩
    show target.roots <+: joinRoots target.roots source.roots
    rw [joinRoots_eq]
    exact List.prefix_append _ _
  · exact .refl target

/-- The first document of a registry is in the arena, and the registry has its
prefixes. -/
def Seeded (a : Arena) (r : Registry) : Prop :=
  ∃ first d, r.roots.head? = some first ∧ a.get? first = some d ∧ r.prefixes = prefixesOf d

/-- The attributes of the root are kept, and so are the prefixes. -/
theorem Seeded.keep {a b : Arena} {r : Registry} (h : r.Seeded a) (hkeeps : b.Keeps a) :
    r.Seeded b := by
  obtain ⟨first, d, hfirst, hd, hprefixes⟩ := h
  obtain ⟨e, he, hed⟩ := hkeeps first d hd
  refine ⟨first, e, hfirst, he, ?_⟩
  rw [hprefixes, prefixesOf, prefixesOf, hed.attributes]

/-- The first root stays first. -/
theorem Outgrows.head?_roots {r r' : Registry} (h : r'.Outgrows r) {first : NodeId}
    (hfirst : r.roots.head? = some first) : r'.roots.head? = some first := by
  obtain ⟨more, hmore⟩ := h.roots
  rw [← hmore, List.head?_append, hfirst, Option.some_or]

/-- A registry that grows keeps the bindings of its first root. -/
theorem Seeded.outgrow {a : Arena} {r r' : Registry} (h : r.Seeded a) (hr : r'.Outgrows r) :
    r'.Seeded a := by
  obtain ⟨first, d, hfirst, hd, hprefixes⟩ := h
  exact ⟨first, d, hr.head?_roots hfirst, hd, hr.prefixes.trans hprefixes⟩

end Registry

namespace Session

open Walk

section

variable {s t : Session} {xs : List Answer}

/-! ## registries in the course of a session -/

/-- Adding a document makes a registry or lets the one of its namespace grow. -/
theorem Addition.cases_registry {root : NodeId} {d : Declaration} (hadd : s.Addition root d t)
    {space : String} {r : Registry} (hr : t.registries.get? space = some r) :
    (s.registries.get? space = none ∧ r = s.fragment root d) ∨
      ∃ existing, s.registries.get? space = some existing ∧ r.Outgrows existing := by
  rw [hadd.registries] at hr
  by_cases hspace : space = Registry.targetSpaceOf d
  · rw [hspace, Table.get?_insert_self, Option.some.injEq, joined, targetSpace_fragment] at hr
    rw [hspace]
    cases hget : s.registries.get? (Registry.targetSpaceOf d) with
    | none =>
        rw [hget] at hr
        exact .inl ⟨rfl, hr.symm⟩
    | some existing =>
        rw [hget] at hr
        refine .inr ⟨existing, rfl, ?_⟩
        rw [← hr]
        exact Registry.outgrows_mergeWith s.dedup existing _
  · rw [Table.get?_insert_of_ne _ _ hspace] at hr
    exact .inr ⟨r, hr, .refl r⟩

/-- Adding a document removes no registry. -/
theorem Addition.exists_registry {root : NodeId} {d : Declaration} (hadd : s.Addition root d t)
    {space : String} {existing : Registry} (h : s.registries.get? space = some existing) :
    ∃ r, t.registries.get? space = some r := by
  rw [hadd.registries]
  by_cases hspace : space = Registry.targetSpaceOf d
  · rw [hspace, Table.get?_insert_self]
    exact ⟨_, rfl⟩
  · rw [Table.get?_insert_of_ne _ _ hspace]
    exact ⟨existing, h⟩

/-- **A registry is never taken away**, whatever happens to the arena, and only
grows. -/
theorem outgrows_run {Edit : Arena → Arena → Prop} (hrun : Run Edit s xs t) {space : String}
    {r : Registry} (hr : s.registries.get? space = some r) :
    ∃ r', t.registries.get? space = some r' ∧ r'.Outgrows r := by
  induction hrun with
  | start => exact ⟨r, hr, .refl r⟩
  | step _ hstep ih =>
      obtain ⟨r', hr', hgrown⟩ := ih
      cases hstep with
      | edit => exact ⟨r', hr', hgrown⟩
      | refuse => exact ⟨r', hr', hgrown⟩
      | walk hwalk =>
          rw [hwalk.account.2.1]
          exact ⟨r', hr', hgrown⟩
      | add hadd =>
          obtain ⟨d, hadd⟩ := addition_of_addDocument hadd
          obtain ⟨r'', hr''⟩ := hadd.exists_registry hr'
          rcases hadd.cases_registry hr'' with ⟨hnone, -⟩ | ⟨existing, hexisting, hmore⟩
          · rw [hr'] at hnone
            contradiction
          · obtain rfl : r' = existing := Option.some.inj (hr'.symm.trans hexisting)
            exact ⟨r'', hr'', hmore.trans hgrown⟩

/-- The registry of one document has the prefixes of its root. -/
theorem seeded_fragment {root : NodeId} {d : Declaration} (hroot : s.arena.get? root = some d) :
    (s.fragment root d).Seeded s.arena := by
  obtain ⟨-, hroots, hprefixes⟩ :=
    Registry.frame_fileLooked s.builtins (.ofRoot root d) (s.arena.look d.children)
  refine ⟨root, d, ?_, hroot, hprefixes⟩
  rw [fragment, hroots]
  rfl

/-- **Every registry has the prefixes of its first document**, as long as
nothing is taken from the arena. -/
theorem seeded_run {builtins : Builtins} {dedup : Bool}
    (hrun : Run (fun a b => b.Keeps a) { builtins, dedup } xs s) {space : String} {r : Registry}
    (hr : s.registries.get? space = some r) : r.Seeded s.arena := by
  induction hrun generalizing space r with
  | start => simp [EmptyCollection.emptyCollection] at hr
  | step _ hstep ih =>
      cases hstep with
      | edit b hkeeps => exact (ih hr).keep hkeeps
      | refuse => exact ih hr
      | walk hwalk =>
          obtain ⟨⟨tasks, haccount⟩, hregistries, -⟩ := hwalk.account
          rw [hregistries] at hr
          rw [haccount.arena]
          exact (ih hr).keep (Arena.keeps_markAll _ _)
      | add hadd =>
          obtain ⟨d, hadd⟩ := addition_of_addDocument hadd
          rw [hadd.arena]
          rcases hadd.cases_registry hr with ⟨-, rfl⟩ | ⟨existing, hexisting, hmore⟩
          · exact seeded_fragment hadd.get?_root
          · exact (ih hexisting).outgrow hmore

/-- **Prefixes are those of the first document.**  The registry of a document
binds each prefix as its root does, and where the root has an attribute
`xmlns:`, that is the default namespace for the registry, whatever `xmlns` says
(`Registry.TakesPrefixes`).  In a session where nothing is taken from the arena
every registry stands so to the root of its first document, and whatever is
done to the session after that, the document stays the first one and no prefix
is bound in another way. -/
theorem prefixes_of_first_document {builtins : Builtins} {dedup : Bool}
    (hrun : Run (fun a b => b.Keeps a) { builtins, dedup } xs s) :
    (∀ a root d, Arena.get? a root = some d →
      ∃ r, Registry.forDocument a root = .ok r ∧ r.TakesPrefixes d) ∧
    ∀ space r, s.registries.get? space = some r →
      ∃ first d, r.roots.head? = some first ∧ s.arena.get? first = some d ∧ r.TakesPrefixes d ∧
        ∀ Edit more t, Run Edit s more t →
          ∃ r', t.registries.get? space = some r' ∧ r'.roots.head? = some first ∧
            ∀ pfx, r'.spaceOfPrefix? pfx = r.spaceOfPrefix? pfx := by
  refine ⟨?_, ?_⟩
  · intro a root d hroot
    rw [Registry.forDocument, hroot]
    exact ⟨_, rfl, Registry.takesPrefixes_of_eq rfl⟩
  · intro space r hr
    obtain ⟨first, d, hfirst, hd, hprefixes⟩ := seeded_run hrun hr
    refine ⟨first, d, hfirst, hd, Registry.takesPrefixes_of_eq hprefixes, ?_⟩
    intro Edit more t hmore
    obtain ⟨r', hr', hgrown⟩ := outgrows_run hmore hr
    refine ⟨r', hr', hgrown.head?_roots hfirst, fun pfx => ?_⟩
    rw [Registry.spaceOfPrefix?, Registry.spaceOfPrefix?, hgrown.prefixes]

end

/-! Two documents of one namespace that bind the same prefixes. -/

/-- The roots of the documents, with their attributes; the first one binds the
empty prefix twice. -/
def boundArena : Arena where
  nodes := #[
    { kind := .schema, space := "urn:a",
      attributes := .ofList [("xmlns", "urn:plain"), ("xmlns:", "urn:colon"), ("xmlns:p", "urn:p")] },
    { kind := .schema, space := "urn:a", attributes := .ofList [("xmlns:p", "urn:other")] }]

def boundSession : Session :=
  ((({ arena := boundArena } : Session).addDocument ⟨0⟩).toOption).getD {}

def reboundSession : Session := ((boundSession.addDocument ⟨1⟩).toOption).getD {}

/-- The second document does not change what the first one has bound. -/
theorem prefixes_of_first_document_rebound :
    Run (fun a b => b.Keeps a) { builtins := .xsd, dedup := true } [] boundSession ∧
      Run (fun _ _ => False) boundSession [] reboundSession ∧
      ∃ r d, reboundSession.registries.get? "urn:a" = some r ∧
        reboundSession.arena.get? ⟨0⟩ = some d ∧ r.roots = [⟨0⟩, ⟨1⟩] ∧
        r.spaceOfPrefix? "p" = some "urn:p" ∧ d.binding? "p" = some "urn:p" := by
  have hkeeps : boundArena.Keeps (∅ : Arena) := by
    intro id d hd
    simp [Arena.get?, EmptyCollection.emptyCollection, Arena.empty] at hd
  have hfirst : ({ arena := boundArena } : Session).addDocument ⟨0⟩ = .ok boundSession := rfl
  have hsecond : boundSession.addDocument ⟨1⟩ = .ok reboundSession := rfl
  have hrun : Run (fun a b => b.Keeps a) { builtins := .xsd, dedup := true } [] boundSession :=
    (Run.start.step (.edit boundArena hkeeps)).step (.add hfirst)
  have hmore : Run (fun _ _ => False) boundSession [] reboundSession :=
    Run.start.step (.add hsecond)
  obtain ⟨first, d, hroot, hd, htakes, hlater⟩ :=
    (prefixes_of_first_document hrun).2 "urn:a" _ rfl
  obtain ⟨r, hr, -, hsame⟩ := hlater _ _ _ hmore
  obtain rfl : ⟨0⟩ = first := Option.some.inj hroot
  have hbinding : d.binding? "p" = some "urn:p" := by
    rw [← Option.some.inj hd]
    decide +kernel
  have hroots : r.roots = [⟨0⟩, ⟨1⟩] := by
    rw [← Option.some.inj hr]
    rfl
  refine ⟨hrun, hmore, r, d, hr, hd, hroots, ?_, hbinding⟩
  rw [hsame, htakes.agrees "p" (by simp), hbinding]

/-- The registry of the first document and the document itself do not agree on
the default namespace. -/
theorem default_prefix_disagrees :
    ∃ r d, Registry.forDocument boundArena ⟨0⟩ = .ok r ∧ boundArena.get? ⟨0⟩ = some d ∧
      r.spaceOfPrefix? "" = some "urn:colon" ∧ d.binding? "" = some "urn:plain" :=
  ⟨_, _, rfl, rfl, by decide +kernel, by decide +kernel⟩

end Session

end SchemaCatalog
