import Mathlib.Data.List.Basic
import SchemaCatalog.Proofs.Session.Built

/-!
# SchemaCatalog.Proofs.Session.LastWins

The registries of a session, read off the documents that were added to it.
Let a namespace have the documents `first :: later`, in the order in which
they were added.  Its registry *represents* them (`Registry.Represents`):

* a name leads to the last declaration filed under it, all direct children of
  all documents taken together;
* the roots are those of the documents, each at its first occurrence;
* the prefixes are those of the first document;
* the external references are the ones that the first document asks for, and
  then those that the later ones ask for, which are dropped where they repeat
  an earlier one if the session says so.

The first document is stored as it is and every later one is merged into what
is there, so there are two cases to a step (`Represents.single`,
`Represents.absorb`), and the rest is induction over the documents.
-/

namespace SchemaCatalog

namespace Registry

/-! ## what documents of one namespace amount to -/

section

variable (builtins : Builtins) (space : String)

/-- The last of some declarations that is filed under a name. -/
def lastFiled (b : Bucket) (name : String) (ds : List (NodeId × Declaration)) : Option NodeId :=
  ((ds.filter fun p => p.2.FiledUnder builtins space b name).getLast?).map (·.1)

/-- Of two lists of declarations the later one answers first. -/
theorem lastFiled_append (b : Bucket) (name : String) (ds es : List (NodeId × Declaration)) :
    lastFiled builtins space b name (ds ++ es) =
      (lastFiled builtins space b name es).or (lastFiled builtins space b name ds) := by
  simp only [lastFiled, List.filter_append, List.getLast?_append, Option.map_or]

/-- A name leads somewhere if some declaration is filed under it. -/
theorem lastFiled_ne_none_iff {b : Bucket} {name : String} {ds : List (NodeId × Declaration)} :
    lastFiled builtins space b name ds ≠ none ↔
      ∃ p ∈ ds, p.2.FiledUnder builtins space b name := by
  simp [lastFiled]

/-- The documents that the direct children of a document ask for. -/
def asked (a : Arena) (document : NodeId × Declaration) : List ExternalReference :=
  (a.look document.2.children).filterMap fun p => p.2.directive? builtins space

end

/-- The direct children of documents, one document after the other. -/
def childrenOf (a : Arena) (documents : List (NodeId × Declaration)) :
    List (NodeId × Declaration) :=
  documents.flatMap fun p => a.look p.2.children

/-- The references that are added to some others. -/
def addedReferences (dedup : Bool) (seen refs : List ExternalReference) : List ExternalReference :=
  if dedup then (refs.removeAll seen).eraseDups else refs

/-- The registry holds what the documents `first :: later` declare, added in
this order. -/
structure Represents (builtins : Builtins) (dedup : Bool) (a : Arena) (space : String)
    (first : NodeId × Declaration) (later : List (NodeId × Declaration)) (r : Registry) : Prop where
  targetSpace : r.targetSpace = space
  lookup : ∀ b name,
    r.lookup b name = lastFiled builtins space b name (childrenOf a (first :: later))
  roots : r.roots = ((first :: later).map (·.1)).eraseDups
  prefixes : r.prefixes = prefixesOf first.2
  externalReferences : r.externalReferences =
    asked builtins space a first ++
      addedReferences dedup (asked builtins space a first) (later.flatMap (asked builtins space a))

/-! ## the first document, and one more -/

theorem removeAll_congr {α : Type} [DecidableEq α] (xs : List α) {ys zs : List α}
    (h : ∀ x, x ∈ ys ↔ x ∈ zs) : xs.removeAll ys = xs.removeAll zs := by
  simp only [List.removeAll, List.elem_eq_mem, h]

/-- References added twice are those added at once. -/
theorem addedReferences_append (dedup : Bool) (seen refs more : List ExternalReference) :
    addedReferences dedup seen (refs ++ more) =
      addedReferences dedup seen refs ++
        addedReferences dedup (seen ++ addedReferences dedup seen refs) more := by
  cases dedup with
  | false => rfl
  | true =>
      have hseen : more.removeAll (seen ++ (refs.removeAll seen).eraseDups) =
          (more.removeAll seen).removeAll (refs.removeAll seen) := by
        simp only [List.removeAll, List.filter_filter]
        refine List.filter_congr fun x _ => ?_
        by_cases hx : x ∈ seen <;> simp [hx]
      have happend : (refs ++ more).removeAll seen = refs.removeAll seen ++ more.removeAll seen :=
        List.filter_append refs more
      simp only [addedReferences, if_true]
      rw [hseen, happend, List.eraseDups_append]

/-- Merging appends the references that adding does. -/
theorem appendedReferences_eq (dedup : Bool) (target source : Registry) :
    appendedReferences dedup target source =
      addedReferences dedup target.externalReferences source.externalReferences := by
  rw [appendedReferences, freshReferences_eq, addedReferences]

section

variable {builtins : Builtins} {dedup : Bool} {a : Arena} {space : String}

/-- The registry of one document represents it. -/
theorem Represents.single (root : NodeId) (d : Declaration) :
    Represents builtins dedup a (targetSpaceOf d) (root, d) []
      (fileLooked builtins (ofRoot root d) (a.look d.children)) := by
  obtain ⟨hspace, hroots, hprefixes⟩ :=
    frame_fileLooked builtins (ofRoot root d) (a.look d.children)
  constructor
  · exact hspace
  · intro b name
    rw [lookup_fileLooked, lookup_ofRoot, Option.or_none, childrenOf, List.flatMap_cons,
      List.flatMap_nil, List.append_nil]
    rfl
  · rw [hroots]
    rfl
  · exact hprefixes
  · have hadded : addedReferences dedup (asked builtins (targetSpaceOf d) a (root, d)) [] = [] := by
      cases dedup <;> rfl
    rw [externalReferences_fileLooked, List.flatMap_nil, hadded, List.append_nil]
    rfl

/-- **One more document**: a registry that represents some documents and has
absorbed the registry of another one represents that one too. -/
theorem Represents.absorb {first document : NodeId × Declaration}
    {later : List (NodeId × Declaration)} {target source : Registry}
    (ht : Represents builtins dedup a space first later target)
    (hs : Represents builtins dedup a space document [] source) :
    Represents builtins dedup a space first (later ++ [document])
      (target.absorb dedup source) := by
  constructor
  · exact ht.targetSpace
  · intro b name
    rw [lookup_absorb, ht.lookup, hs.lookup, ← lastFiled_append, ← List.cons_append]
    simp only [childrenOf, List.flatMap_append]
  · have hseen : ∀ x, x ∈ target.roots ↔ x ∈ (first :: later).map (·.1) := by
      intro x
      rw [ht.roots, List.mem_eraseDups]
    have hroots : source.roots = [document.1] := hs.roots
    rw [Registry.absorb, joinRoots_eq, removeAll_congr source.roots hseen, ht.roots, hroots,
      ← List.cons_append, List.map_append, List.eraseDups_append]
    rfl
  · exact ht.prefixes
  · have hsource : source.externalReferences = asked builtins space a document := by
      have hadded : addedReferences dedup (asked builtins space a document) [] = [] := by
        cases dedup <;> rfl
      rw [hs.externalReferences, List.flatMap_nil, hadded, List.append_nil]
    rw [Registry.absorb, appendedReferences_eq, ht.externalReferences, hsource,
      List.flatMap_append, addedReferences_append, List.flatMap_cons, List.flatMap_nil,
      List.append_nil, List.append_assoc]

/-- Growth of the arena changes nothing about documents that are there. -/
theorem Represents.grow {first : NodeId × Declaration} {later : List (NodeId × Declaration)}
    {r : Registry} (h : Represents builtins dedup a space first later r) {b : Arena}
    (hgrow : b.Extends a) (hvalid : ∀ p ∈ first :: later, ∀ c ∈ p.2.children, a.Valid c) :
    Represents builtins dedup b space first later r := by
  have hlook : ∀ p ∈ first :: later, b.look p.2.children = a.look p.2.children :=
    fun p hp => hgrow.look (hvalid p hp)
  have hasked : ∀ p ∈ first :: later, asked builtins space b p = asked builtins space a p :=
    fun p hp => by rw [asked, hlook p hp, asked]
  have hchildren : childrenOf b (first :: later) = childrenOf a (first :: later) := by
    rw [childrenOf, childrenOf]
    exact List.flatMap_congr hlook
  have hlater : later.flatMap (asked builtins space b) = later.flatMap (asked builtins space a) :=
    List.flatMap_congr fun p hp => hasked p (List.mem_cons_of_mem _ hp)
  constructor
  · exact h.targetSpace
  · intro bucket name
    rw [h.lookup, hchildren]
  · exact h.roots
  · exact h.prefixes
  · rw [h.externalReferences, hlater, hasked first List.mem_cons_self]

end

end Registry

namespace Session

/-! ## adding one document after the other -/

/-- `t` comes about from `s` by adding the documents of some roots, in order;
in between the arena may grow. -/
inductive Adds (s : Session) : List NodeId → Session → Prop
  | start : Adds s [] s
  | grow {roots : List NodeId} {t : Session} (h : Adds s roots t) (a : Arena)
    (hgrow : a.Extends t.arena) : Adds s roots { t with arena := a }
  | add {roots : List NodeId} {t t' : Session} {root : NodeId} (h : Adds s roots t)
    (hadd : t.addDocument root = .ok t') : Adds s (roots ++ [root]) t'

/-- Documents can be added in two parts. -/
theorem Adds.trans {s t u : Session} {roots more : List NodeId} (hst : Adds s roots t)
    (htu : Adds t more u) : Adds s (roots ++ more) u := by
  induction htu with
  | start =>
      rw [List.append_nil]
      exact hst
  | grow _ a hgrow ih => exact ih.grow a hgrow
  | add _ hadd ih =>
      rw [← List.append_assoc]
      exact ih.add hadd

/-- A list of documents that is added is added one by one. -/
theorem adds_of_addDocuments {s t : Session} {roots : List NodeId}
    (h : s.addDocuments roots = .ok t) : Adds s roots t := by
  induction roots generalizing s with
  | nil =>
      obtain rfl : s = t := Except.ok.inj h
      exact .start
  | cons root roots ih =>
      rw [addDocuments] at h
      split at h
      · next s₁ hfirst => exact (Adds.start.add hfirst).trans (ih h)
      · contradiction

/-- The documents of a namespace among those of some roots, in order. -/
def documents (a : Arena) (space : String) (roots : List NodeId) : List (NodeId × Declaration) :=
  (a.look roots).filter fun p => (p.2.attr? "targetNamespace").getD p.2.space = space

/-- The registry of a namespace, if there is one, represents the documents of
that namespace, and there is one if there are any. -/
def Represents (s : Session) (space : String) (documents : List (NodeId × Declaration)) : Prop :=
  match documents with
  | [] => s.registries.get? space = none
  | first :: later => ∃ r, s.registries.get? space = some r ∧
      r.Represents s.builtins s.dedup s.arena space first later

/-- A registry that is there represents documents. -/
theorem Represents.of_get? {s : Session} {space : String}
    {documents : List (NodeId × Declaration)} (h : s.Represents space documents) {r : Registry}
    (hr : s.registries.get? space = some r) :
    ∃ first later, documents = first :: later ∧
      r.Represents s.builtins s.dedup s.arena space first later := by
  cases documents with
  | nil =>
      have hnone : s.registries.get? space = none := h
      rw [hnone] at hr
      contradiction
  | cons first later =>
      obtain ⟨r', hr', hrep⟩ := h
      obtain rfl : r = r' := Option.some.inj (hr.symm.trans hr')
      exact ⟨first, later, rfl, hrep⟩

/-- Documents have a registry. -/
theorem Represents.exists_get? {s : Session} {space : String}
    {documents : List (NodeId × Declaration)} (h : s.Represents space documents)
    (hne : documents ≠ []) : ∃ r, s.registries.get? space = some r := by
  cases documents with
  | nil => contradiction
  | cons first later =>
      obtain ⟨r, hr, -⟩ := h
      exact ⟨r, hr⟩

/-- Every namespace is represented by its registry, and all that was added can
be looked up. -/
structure Represented (s : Session) (roots : List NodeId) : Prop where
  represents : ∀ space, s.Represents space (documents s.arena space roots)
  validRoots : ∀ root ∈ roots, s.arena.Valid root
  validChildren : ∀ p ∈ s.arena.look roots, ∀ c ∈ p.2.children, s.arena.Valid c

/-- Growth of the arena changes nothing about documents that are there. -/
theorem Represents.grow {s : Session} {space : String} {documents : List (NodeId × Declaration)}
    (h : s.Represents space documents) {a : Arena} (hgrow : a.Extends s.arena)
    (hvalid : ∀ p ∈ documents, ∀ c ∈ p.2.children, s.arena.Valid c) :
    ({ s with arena := a } : Session).Represents space documents := by
  cases documents with
  | nil => exact h
  | cons first later =>
      obtain ⟨r, hr, hrep⟩ := h
      exact ⟨r, hr, hrep.grow hgrow hvalid⟩

/-- The added document joins the others of its namespace. -/
theorem Represents.add {s s' : Session} (hrooted : s.Rooted) {root : NodeId} {d : Declaration}
    (hadd : s.Addition root d s') {documents : List (NodeId × Declaration)}
    (h : s.Represents (Registry.targetSpaceOf d) documents) :
    s'.Represents (Registry.targetSpaceOf d) (documents ++ [(root, d)]) := by
  have hget : s'.registries.get? (Registry.targetSpaceOf d) =
      some (s.joined (s.fragment root d)) := by
    rw [hadd.registries, Table.get?_insert_self]
  have hfragment : (s.fragment root d).Represents s.builtins s.dedup s.arena
      (Registry.targetSpaceOf d) (root, d) [] := Registry.Represents.single root d
  have hspace := targetSpace_fragment s root d
  cases documents with
  | nil =>
      have hjoined : s.joined (s.fragment root d) = s.fragment root d := by
        rw [Represents, ← hspace] at h
        simp only [joined, h]
      refine ⟨_, hget, ?_⟩
      rw [hjoined, hadd.builtins, hadd.dedup, hadd.arena]
      exact hfragment
  | cons first later =>
      obtain ⟨existing, hexisting, hrep⟩ := h
      rw [← hspace] at hexisting
      refine ⟨_, hget, ?_⟩
      rw [joined_eq_absorb hrooted hexisting, hadd.builtins, hadd.dedup, hadd.arena]
      exact hrep.absorb hfragment

/-- The other namespaces stay as they are. -/
theorem Represents.of_ne {s s' : Session} {root : NodeId} {d : Declaration}
    (hadd : s.Addition root d s') {space : String} (hspace : space ≠ Registry.targetSpaceOf d)
    {documents : List (NodeId × Declaration)} (h : s.Represents space documents) :
    s'.Represents space documents := by
  have hget : s'.registries.get? space = s.registries.get? space := by
    rw [hadd.registries, Table.get?_insert_of_ne _ _ hspace]
  cases documents with
  | nil => exact hget.trans h
  | cons first later =>
      obtain ⟨r, hr, hrep⟩ := h
      refine ⟨r, hget.trans hr, ?_⟩
      rw [hadd.builtins, hadd.dedup, hadd.arena]
      exact hrep

/-- Growth of the arena does not affect what the registries represent. -/
theorem Represented.grow {s : Session} {roots : List NodeId} (h : s.Represented roots) {a : Arena}
    (hgrow : a.Extends s.arena) : ({ s with arena := a } : Session).Represented roots := by
  have hlook : a.look roots = s.arena.look roots := hgrow.look h.validRoots
  constructor
  · intro space
    rw [documents, hlook]
    refine (h.represents space).grow hgrow ?_
    intro p hp
    exact h.validChildren p (List.mem_filter.mp hp).1
  · exact fun root hroot => hgrow.valid (h.validRoots root hroot)
  · intro p hp c hc
    rw [hlook] at hp
    exact hgrow.valid (h.validChildren p hp c hc)

/-- A new document is represented together with those before it. -/
theorem Represented.add {s s' : Session} {roots : List NodeId} (h : s.Represented roots)
    (hrooted : s.Rooted) {root : NodeId} {d : Declaration} (hadd : s.Addition root d s') :
    s'.Represented (roots ++ [root]) := by
  have hlook : s.arena.look (roots ++ [root]) = s.arena.look roots ++ [(root, d)] := by
    rw [Arena.look_append, Arena.look_cons_some hadd.get?_root]
    rfl
  constructor
  · intro space
    have hspace := h.represents space
    rw [documents] at hspace ⊢
    rw [hadd.arena, hlook, List.filter_append]
    by_cases hd : space = Registry.targetSpaceOf d
    · subst hd
      rw [List.filter_cons_of_pos (by simp [Registry.targetSpaceOf]), List.filter_nil]
      exact hspace.add hrooted hadd
    · have hne : ¬ Registry.targetSpaceOf d = space := fun h => hd h.symm
      rw [List.filter_cons_of_neg (by simpa [Registry.targetSpaceOf] using hne), List.filter_nil,
        List.append_nil]
      exact hspace.of_ne hadd hd
  · intro q hq
    rw [hadd.arena]
    rcases List.mem_append.mp hq with hq | hq
    · exact h.validRoots q hq
    · rw [List.mem_singleton.mp hq]
      exact Arena.valid_iff.mpr ⟨d, hadd.get?_root⟩
  · intro p hp c hc
    rw [hadd.arena] at hp ⊢
    rw [hlook] at hp
    rcases List.mem_append.mp hp with hp | hp
    · exact h.validChildren p hp c hc
    · rw [List.mem_singleton.mp hp] at hc
      exact hadd.valid c hc

/-- What adding documents keeps, besides what it builds. -/
theorem Adds.frame {s t : Session} {roots : List NodeId} (h : s.Adds roots t) :
    t.arena.Extends s.arena ∧ t.builtins = s.builtins ∧ t.dedup = s.dedup ∧
      (s.Rooted → t.Rooted) := by
  induction h with
  | start => exact ⟨.refl _, rfl, rfl, id⟩
  | grow _ a hgrow ih =>
      obtain ⟨harena, hbuiltins, hdedup, hrooted⟩ := ih
      exact ⟨hgrow.trans harena, hbuiltins, hdedup,
        fun hs => (hrooted hs).of_registries_eq rfl hgrow.size_le⟩
  | add _ hadd ih =>
      obtain ⟨harena, hbuiltins, hdedup, hrooted⟩ := ih
      obtain ⟨d, hadd⟩ := addition_of_addDocument hadd
      exact ⟨hadd.arena ▸ harena, hadd.builtins.trans hbuiltins, hadd.dedup.trans hdedup,
        fun hs => (hrooted hs).add hadd⟩

/-- A session without registries represents no documents. -/
theorem represented_new (a : Arena) (builtins : Builtins) (dedup : Bool) :
    ({ arena := a, builtins, dedup } : Session).Represented [] := by
  constructor
  · intro space
    rfl
  · intro root hroot
    contradiction
  · intro p hp
    contradiction

/-- **Every namespace is represented** after any documents have been added. -/
theorem Adds.represented {s t : Session} {roots : List NodeId} (h : s.Adds roots t)
    (hrooted : s.Rooted) (hs : s.Represented []) : t.Represented roots := by
  induction h with
  | start => exact hs
  | grow _ a hgrow ih => exact ih.grow hgrow
  | add h hadd ih =>
      obtain ⟨d, hadd⟩ := addition_of_addDocument hadd
      exact ih.add (h.frame.2.2.2 hrooted) hadd

/-- The documents of a namespace are the roots that have it as target namespace. -/
theorem mem_documents_iff {a : Arena} {space : String} {roots : List NodeId}
    {p : NodeId × Declaration} :
    p ∈ documents a space roots ↔
      p.1 ∈ roots ∧ a.get? p.1 = some p.2 ∧
        (p.2.attr? "targetNamespace").getD p.2.space = space := by
  rw [documents, List.mem_filter, Arena.mem_look, decide_eq_true_eq, and_assoc]

/-- There is a document of a namespace if some root has it as target namespace. -/
theorem documents_ne_nil {a : Arena} {space : String} {roots : List NodeId} :
    documents a space roots ≠ [] ↔
      ∃ root ∈ roots, ∃ d, a.get? root = some d ∧
        (d.attr? "targetNamespace").getD d.space = space := by
  constructor
  · intro hne
    obtain ⟨⟨root, d⟩, hmem⟩ := List.exists_mem_of_ne_nil _ hne
    obtain ⟨hroot, hd, hspace⟩ := mem_documents_iff.mp hmem
    exact ⟨root, hroot, d, hd, hspace⟩
  · rintro ⟨root, hroot, d, hd, hspace⟩
    have hmem : (root, d) ∈ documents a space roots := mem_documents_iff.mpr ⟨hroot, hd, hspace⟩
    exact List.ne_nil_of_mem hmem

/-- **The last declaration wins**, whatever documents are added in whatever
order, while the arena grows: a namespace has a registry if and only if one of
the documents has it as its target namespace, and the registry represents the
documents of the namespace. -/
theorem registry_last_wins {a : Arena} {builtins : Builtins} {dedup : Bool} {roots : List NodeId}
    {s : Session} (h : Adds { arena := a, builtins, dedup } roots s) (space : String) :
    ((∃ r, s.registry? space = some r) ↔ ∃ root ∈ roots, ∃ d, s.arena.get? root = some d ∧
      (d.attr? "targetNamespace").getD d.space = space) ∧
    ∀ r, s.registry? space = some r → ∃ first later,
      documents s.arena space roots = first :: later ∧
      r.Represents builtins dedup s.arena space first later := by
  have hrepresented := (h.represented (Built.new builtins dedup |>.edit a (Nat.zero_le _)).rooted
    (represented_new a builtins dedup)).represents space
  obtain ⟨-, hbuiltins, hdedup, -⟩ := h.frame
  constructor
  · rw [← documents_ne_nil]
    constructor
    · intro hexists
      obtain ⟨r, hr⟩ := hexists
      obtain ⟨first, later, hdocs, -⟩ := hrepresented.of_get? hr
      rw [hdocs]
      exact List.cons_ne_nil first later
    · exact hrepresented.exists_get?
  · intro r hr
    have hrep := hrepresented.of_get? hr
    rwa [hbuiltins, hdedup] at hrep

/-! ## two documents of one namespace -/

/-- A document that declares a type. -/
def earlierArena : Arena where
  nodes := #[
    { kind := .schema, space := "urn:a", children := [⟨1⟩] },
    { kind := .complexType, name := some "Type", space := "urn:a" }]

/-- Later there is a second document, which declares the same type and asks
for a third document. -/
def laterArena : Arena :=
  let a := (earlierArena.alloc { kind := .schema, space := "urn:a", children := [⟨3⟩, ⟨4⟩] }).2
  let a := (a.alloc { kind := .complexType, name := some "Type", space := "urn:a" }).2
  (a.alloc { kind := .inclusion, space := "urn:a"
             attributes := .ofList [("schemaLocation", "more.xsd")] }).2

def earlierSession : Session :=
  ((({ arena := earlierArena } : Session).addDocument ⟨0⟩).toOption).getD {}

def laterSession : Session :=
  ((({ earlierSession with arena := laterArena } : Session).addDocument ⟨2⟩).toOption).getD {}

theorem adds_laterSession : Adds { arena := earlierArena } [⟨0⟩, ⟨2⟩] laterSession := by
  have hgrow : laterArena.Extends earlierArena :=
    (Arena.extends_alloc _ _).trans ((Arena.extends_alloc _ _).trans (Arena.extends_alloc _ _))
  have hfirst : ({ arena := earlierArena } : Session).addDocument ⟨0⟩ = .ok earlierSession := rfl
  have hsecond : ({ earlierSession with arena := laterArena } : Session).addDocument ⟨2⟩ =
      .ok laterSession := rfl
  exact ((Adds.start.add hfirst).grow laterArena hgrow).add hsecond

/-- The second declaration of the type wins, and the document asked for is noted. -/
theorem registry_last_wins_twice :
    Adds { arena := earlierArena } [⟨0⟩, ⟨2⟩] laterSession ∧
      ∃ r, laterSession.registry? "urn:a" = some r ∧
        r.lookup .complexTypes "Type" = some ⟨3⟩ ∧ r.roots = [⟨0⟩, ⟨2⟩] ∧
        r.externalReferences = [⟨"urn:a", "more.xsd"⟩] := by
  obtain ⟨hexists, hrepresents⟩ := registry_last_wins adds_laterSession "urn:a"
  obtain ⟨r, hr⟩ := hexists.mpr ⟨⟨0⟩, List.mem_cons_self, _, rfl, rfl⟩
  obtain ⟨first, later, hdocs, hrep⟩ := hrepresents r hr
  have hpair : documents laterSession.arena "urn:a" [⟨0⟩, ⟨2⟩] =
      [(⟨0⟩, { kind := .schema, space := "urn:a", children := [⟨1⟩] }),
        (⟨2⟩, { kind := .schema, space := "urn:a", children := [⟨3⟩, ⟨4⟩] })] := by
    decide +kernel
  rw [hpair, List.cons_eq_cons] at hdocs
  obtain ⟨rfl, rfl⟩ := hdocs
  refine ⟨adds_laterSession, r, hr, ?_, ?_, ?_⟩
  · rw [hrep.lookup]
    decide +kernel
  · rw [hrep.roots]
    decide +kernel
  · rw [hrep.externalReferences]
    decide +kernel

end Session

end SchemaCatalog
