import SchemaCatalog.Proofs.Fragment.Linking
import SchemaCatalog.Proofs.Session.Built

/-!
# SchemaCatalog.Proofs.Session.Soundness

What can be relied on in every registry of a session whose arena has only ever
been added to (`Accrued`): it stands under its own namespace, its roots are
documents of that namespace, and whatever a name leads to is a declaration of
that name and of a kind that belongs in the bucket, is listed below one of the
roots, and is not built in (`Registry.Sound`).

Two facts carry this.  A declaration keeps what a registry knows about it,
whatever happens to the arena later (`Sound.keep`), and a registry that has
absorbed a sound one is sound (`Sound.absorb`).  The registry of one document
is sound because only direct children are filed (`sound_fileLooked`).
-/

namespace SchemaCatalog

namespace Registry

/-- Everything in a registry belongs to its namespace, which is `space`. -/
structure Sound (builtins : Builtins) (a : Arena) (space : String) (r : Registry) : Prop where
  targetSpace : r.targetSpace = space
  nonempty : r.roots ≠ []
  nodup : r.roots.Nodup
  documents : ∀ root ∈ r.roots, ∃ d, a.get? root = some d ∧
    (d.attr? "targetNamespace").getD d.space = space
  filed : ∀ b name id, r.lookup b name = some id → ∃ d, a.get? id = some d ∧
    d.kind = b.kind ∧ d.name = some name ∧
    ¬ (d.space = space ∧ builtins.contains space name = true) ∧ ∃ root ∈ r.roots, a.Edge root id

section

variable {builtins : Builtins} {a : Arena} {space : String}

/-- Declarations go on to belong where they belonged. -/
theorem Sound.keep {r : Registry} (h : r.Sound builtins a space) {b : Arena} (hkeeps : b.Keeps a) :
    r.Sound builtins b space where
  targetSpace := h.targetSpace
  nonempty := h.nonempty
  nodup := h.nodup
  documents := by
    intro root hroot
    obtain ⟨d, hd, hspace⟩ := h.documents root hroot
    obtain ⟨e, he, hed⟩ := hkeeps root d hd
    refine ⟨e, he, ?_⟩
    rw [← hspace, Declaration.attr?, Declaration.attr?, hed.attributes, hed.space]
  filed := by
    intro bucket name id hid
    obtain ⟨d, hd, hbucket, hname, hbuiltin, root, hroot, hedge⟩ := h.filed bucket name id hid
    obtain ⟨e, he, hed⟩ := hkeeps id d hd
    refine ⟨e, he, ?_, ?_, ?_, root, hroot, hkeeps.edge hedge⟩
    · rw [hed.kind, hbucket]
    · rw [hed.name, hname]
    · rw [hed.space]
      exact hbuiltin

/-- The registry of one document is sound. -/
theorem sound_fileLooked {root : NodeId} {d : Declaration} (hroot : a.get? root = some d) :
    (fileLooked builtins (ofRoot root d) (a.look d.children)).Sound builtins a
      (targetSpaceOf d) := by
  obtain ⟨hspace, hroots, -⟩ := frame_fileLooked builtins (ofRoot root d) (a.look d.children)
  have hsingle : (ofRoot root d).roots = [root] := rfl
  rw [hsingle] at hroots
  constructor
  · exact hspace
  · simp [hroots]
  · simp [hroots]
  · intro q hq
    rw [hroots, List.mem_singleton] at hq
    exact ⟨d, hq ▸ hroot, rfl⟩
  · intro b name id hid
    obtain ⟨e, hmem, hbucket, hname, hbuiltin⟩ := mem_of_lookup_fileLooked builtins _ hid
    obtain ⟨hchild, he⟩ := Arena.mem_look.mp hmem
    refine ⟨e, he, hbucket, hname, ?_, root, ?_, d, hroot, hchild⟩
    · intro hboth
      exact hbuiltin ⟨hboth.1, name, hname, hboth.2⟩
    · simp [hroots]

/-- **Absorbing** a sound registry of the same namespace keeps a registry
sound. -/
theorem Sound.absorb {target source : Registry} (ht : target.Sound builtins a space)
    (hs : source.Sound builtins a space) (dedup : Bool) :
    (target.absorb dedup source).Sound builtins a space := by
  have hroots : (target.absorb dedup source).roots = joinRoots target.roots source.roots := rfl
  have hmem : ∀ root, root ∈ (target.absorb dedup source).roots ↔
      root ∈ target.roots ∨ root ∈ source.roots := fun root => by rw [hroots, mem_joinRoots]
  constructor
  · exact ht.targetSpace
  · rw [hroots, joinRoots_eq]
    exact List.append_ne_nil_of_left_ne_nil ht.nonempty _
  · rw [hroots]
    exact nodup_joinRoots ht.nodup source.roots
  · intro root hroot
    obtain hroot | hroot := (hmem root).mp hroot
    · exact ht.documents root hroot
    · exact hs.documents root hroot
  · intro b name id hid
    rw [lookup_absorb, Option.or_eq_some_iff] at hid
    obtain hid | ⟨-, hid⟩ := hid
    · obtain ⟨d, hd, hbucket, hname, hbuiltin, root, hroot, hedge⟩ := hs.filed b name id hid
      exact ⟨d, hd, hbucket, hname, hbuiltin, root, (hmem root).mpr (.inr hroot), hedge⟩
    · obtain ⟨d, hd, hbucket, hname, hbuiltin, root, hroot, hedge⟩ := ht.filed b name id hid
      exact ⟨d, hd, hbucket, hname, hbuiltin, root, (hmem root).mpr (.inl hroot), hedge⟩

end

end Registry

namespace Session

/-- The session has been built by operations that take nothing away from its
arena: declarations and edges are added, texts are loaded, whatever comes of
it, documents are added, and walks are made. -/
inductive Accrued : Session → Prop
  | new (builtins : Builtins) (dedup : Bool) : Accrued { builtins, dedup }
  | alloc {s : Session} (h : Accrued s) (d : Declaration) :
    Accrued { s with arena := (s.arena.alloc d).2 }
  | allocChild {s : Session} (h : Accrued s) {parent id : NodeId} {d : Declaration} {a : Arena}
    (halloc : s.arena.allocChild parent d = .ok (id, a)) : Accrued { s with arena := a }
  | addChild {s : Session} (h : Accrued s) {parent child : NodeId} {a : Arena}
    (hadd : s.arena.addChild parent child = .ok a) : Accrued { s with arena := a }
  | load {s : Session} (h : Accrued s) (text : String) :
    Accrued { s with arena := (s.arena.load text).1 }
  | add {s s' : Session} {root : NodeId} (h : Accrued s) (hadd : s.addDocument root = .ok s') :
    Accrued s'
  | walkAll {s : Session} (h : Accrued s) {σ : Type} (visit : Visitor σ) (state : σ) :
    Accrued (s.walkAll visit state).1
  | walkSpace {s : Session} (h : Accrued s) (space : String) {σ : Type} (visit : Visitor σ)
    (state : σ) : Accrued (s.walkSpace space visit state).1
  | resolve {s : Session} (h : Accrued s) (strict : Bool) :
    Accrued (s.resolveReferences strict).1

/-- Every registry stands under its own namespace and is sound, and no root is
listed by two registries. -/
structure Sound (s : Session) : Prop where
  registries : ∀ space r, s.registries.get? space = some r →
    r.Sound s.builtins s.arena space
  apart : ∀ space space' r r', s.registries.get? space = some r →
    s.registries.get? space' = some r' → space ≠ space' → r.roots.Disjoint r'.roots

/-- Registries that are sound share no roots: a document has one namespace. -/
theorem Sound.of_registries {s : Session}
    (h : ∀ space r, s.registries.get? space = some r → r.Sound s.builtins s.arena space) :
    s.Sound where
  registries := h
  apart := by
    intro space space' r r' hr hr' hne root hroot hroot'
    obtain ⟨d, hd, hspace⟩ := (h space r hr).documents root hroot
    obtain ⟨e, he, hspace'⟩ := (h space' r' hr').documents root hroot'
    obtain rfl : d = e := Option.some.inj (hd.symm.trans he)
    exact hne (hspace.symm.trans hspace')

/-- A session stays sound as long as its arena is only added to. -/
theorem Sound.keep {s s' : Session} (h : s.Sound) (hregistries : s'.registries = s.registries)
    (hbuiltins : s'.builtins = s.builtins) (hkeeps : s'.arena.Keeps s.arena) : s'.Sound := by
  refine .of_registries fun space r hr => ?_
  rw [hregistries] at hr
  rw [hbuiltins]
  exact (h.registries space r hr).keep hkeeps

theorem Sound.marked {s : Session} (h : s.Sound) (ids : List NodeId) : (s.marked ids).Sound :=
  h.keep rfl rfl (Arena.keeps_markAll s.arena ids)

/-- A sound session is rooted. -/
theorem Sound.rooted {s : Session} (h : s.Sound) : s.Rooted where
  keyed := fun space r hr => (h.registries space r hr).targetSpace
  valid := by
    intro space r hr root hroot
    obtain ⟨d, hd, -⟩ := (h.registries space r hr).documents root hroot
    exact Arena.valid_iff.mpr ⟨d, hd⟩

/-- Adding a document keeps a session sound. -/
theorem Sound.add {s s' : Session} {root : NodeId} {d : Declaration} (h : s.Sound)
    (hadd : s.Addition root d s') : s'.Sound := by
  have hfragment : (s.fragment root d).Sound s.builtins s.arena (Registry.targetSpaceOf d) :=
    Registry.sound_fileLooked hadd.get?_root
  refine .of_registries fun space r hr => ?_
  rw [hadd.registries] at hr
  rw [hadd.builtins, hadd.arena]
  by_cases hspace : space = Registry.targetSpaceOf d
  · rw [hspace, Table.get?_insert_self, Option.some.injEq] at hr
    rw [← hr, hspace]
    cases hget : s.registries.get? (s.fragment root d).targetSpace with
    | none =>
        simp only [joined, hget]
        exact hfragment
    | some existing =>
        rw [joined_eq_absorb h.rooted hget]
        rw [targetSpace_fragment] at hget
        exact (h.registries _ existing hget).absorb hfragment s.dedup
  · rw [Table.get?_insert_of_ne _ _ hspace] at hr
    exact h.registries space r hr

/-- **Registries are sound** in every session whose arena has only been added
to. -/
theorem registries_sound {s : Session} (h : s.Accrued) : s.Sound := by
  induction h with
  | new builtins dedup =>
      refine .of_registries fun space r hr => ?_
      simp [EmptyCollection.emptyCollection] at hr
  | @alloc s _ d ih => exact ih.keep rfl rfl (Arena.extends_alloc s.arena d).keeps
  | allocChild _ halloc ih => exact ih.keep rfl rfl (Arena.keeps_allocChild halloc)
  | addChild _ hadd ih => exact ih.keep rfl rfl (Arena.keeps_addChild hadd)
  | @load s _ text ih => exact ih.keep rfl rfl (Arena.annexed_load s.arena text).grown.keeps
  | add _ hadd ih =>
      obtain ⟨d, hadd⟩ := addition_of_addDocument hadd
      exact ih.add hadd
  | @walkAll s _ σ visit state ih =>
      obtain ⟨ids, hids⟩ := exists_walkAll_fst s visit state
      rw [hids]
      exact ih.marked ids
  | @walkSpace s _ space σ visit state ih =>
      obtain ⟨ids, hids⟩ := exists_walkSpace_fst s space visit state
      rw [hids]
      exact ih.marked ids
  | @resolve s _ strict ih =>
      obtain ⟨ids, notes, hids⟩ := exists_resolveReferences_fst s strict
      rw [hids]
      exact (ih.marked ids).keep rfl rfl (Arena.Extends.refl _).keeps

/-! A document that is added, gets another child, and is added again. -/

/-- The document with its first child. -/
def shortArena : Arena where
  nodes := #[
    { kind := .schema, space := "urn:a", children := [⟨1⟩] },
    { kind := .element, name := some "first", space := "urn:a" }]

/-- The document with both children; the first one is shared. -/
def longArena : Arena where
  nodes := #[
    { kind := .schema, space := "urn:a", children := [⟨1⟩, ⟨2⟩] },
    { kind := .element, name := some "first", space := "urn:a" },
    { kind := .complexType, name := some "Second", space := "urn:a", children := [⟨1⟩] }]

def shortSession : Session :=
  ((({ arena := shortArena } : Session).addDocument ⟨0⟩).toOption).getD {}

def reopenedSession : Session :=
  ((({ shortSession with arena := longArena } : Session).addDocument ⟨0⟩).toOption).getD {}

theorem accrued_reopenedSession : reopenedSession.Accrued := by
  have hopen : ({ arena := shortArena } : Session).addDocument ⟨0⟩ = .ok shortSession := rfl
  have hreopen : ({ shortSession with arena := longArena } : Session).addDocument ⟨0⟩ =
      .ok reopenedSession := rfl
  have hfirst : ((∅ : Arena).alloc { kind := .schema, space := "urn:a" }).2.allocChild ⟨0⟩
      { kind := .element, name := some "first", space := "urn:a" } = .ok (⟨1⟩, shortArena) := rfl
  have hsecond : ∃ a : Arena, shortArena.allocChild ⟨0⟩
        { kind := .complexType, name := some "Second", space := "urn:a" } = .ok (⟨2⟩, a) ∧
      a.addChild ⟨2⟩ ⟨1⟩ = .ok longArena := ⟨_, rfl, rfl⟩
  obtain ⟨a, halloc, hshare⟩ := hsecond
  exact ((((((Accrued.new .xsd true).alloc _).allocChild hfirst).add hopen).allocChild
    halloc).addChild hshare).add hreopen

/-- The registry lists the document once and both of its children. -/
theorem registries_sound_reopened : (reopenedSession.resolveReferences false).1.Accrued ∧
    ∃ r, (reopenedSession.resolveReferences false).1.registries.get? "urn:a" = some r ∧
      r.roots = [⟨0⟩] ∧ r.lookup .elements "first" = some ⟨1⟩ ∧
      r.lookup .complexTypes "Second" = some ⟨2⟩ ∧
      r.Sound .xsd (reopenedSession.resolveReferences false).1.arena "urn:a" := by
  have haccrued := accrued_reopenedSession.resolve false
  have hsound := registries_sound haccrued
  refine ⟨haccrued, ?_⟩
  obtain ⟨ids, notes, hids⟩ := exists_resolveReferences_fst reopenedSession false
  rw [hids] at hsound ⊢
  exact ⟨_, rfl, rfl, rfl, rfl, hsound.registries "urn:a" _ rfl⟩

end Session

end SchemaCatalog
