import SchemaCatalog.Proofs.Fragment.Linking
import SchemaCatalog.Reference.Name
import SchemaCatalog.Registry.Filing

/-!
# SchemaCatalog.Proofs.Fragment.TargetSpace

The namespace that the declarations of a document inherit, against the one that
the registry of the document is for.  A document root can say twice what its
namespace is, by a field of its own and by the attribute `targetNamespace`.
Declarations inherit the former, registries go by the latter, and if only one
of them is there, or both say the same, it makes no difference
(`Document.targetSpace_eq_iff`).

If they say different things, the document is `Contradictory`, and its registry
takes every declaration that inherits its namespace for one of another
namespace (`space_of_inherited`).
-/

namespace SchemaCatalog

open Fragment

namespace Document

/-- The root names one namespace in its field and another one in its attribute. -/
def Contradictory (d : Document) : Prop :=
  ∃ own target, d.head.space = some own ∧
    d.head.attributes.get? "targetNamespace" = some target ∧ own ≠ target

def targetSpace (d : Document) : String :=
  (d.head.attributes.get? "targetNamespace").getD d.space

/-- Both namespaces are one unless the document says otherwise. -/
theorem targetSpace_eq_iff (d : Document) : d.space = d.targetSpace ↔ ¬ d.Contradictory := by
  cases hown : d.head.space with
  | none =>
      cases htarget : d.head.attributes.get? "targetNamespace" with
      | none => simp [targetSpace, Contradictory, htarget]
      | some target => simp [targetSpace, Contradictory, space, hown, htarget]
  | some own =>
      cases htarget : d.head.attributes.get? "targetNamespace" with
      | none => simp [targetSpace, Contradictory, htarget]
      | some target => simp [targetSpace, Contradictory, space, hown, htarget]

/-- The root belongs to the namespace of its document in any case. -/
theorem space_root (d : Document) : (d.head.declaration d.space).space = d.space := by
  cases hown : d.head.space with
  | none => simp [Head.declaration, hown]
  | some own => simp [Head.declaration, space, hown]

/-- A loaded document has a registry, whose namespace does not depend on where
the document stands. -/
theorem Loaded.forDocument {d : Document} {a b : Arena} (h : d.Loaded a b) :
    ∃ top r, b.get? ⟨a.size⟩ = some top ∧ Registry.forDocument b ⟨a.size⟩ = .ok r ∧
      r.targetSpace = d.targetSpace := by
  have hroot : ⟨⟨a.size⟩, d.head, slots (a.size + 1) d.children⟩ ∈ place a.size d.entry := by
    simp [entry, place]
  obtain ⟨children, -, hget⟩ := h.placed _ hroot
  refine ⟨_, _, hget, by rw [Registry.forDocument, hget], ?_⟩
  show (d.head.attributes.get? "targetNamespace").getD (d.head.declaration d.space).space = _
  rw [space_root, targetSpace]

end Document

/-! ## declarations of a registry's own namespace -/

/-- A registry takes the declaration `e`, in a document with the root `top`, for
one of its namespace: that is where built-in names are looked for, and where
names without a prefix lead if there is no default namespace. -/
structure Registry.Owns (r : Registry) (top e : Declaration) : Prop where
  space : e.space = r.targetSpace
  suppresses : ∀ builtins name, e.name = some name →
    r.suppresses builtins e = builtins.contains r.targetSpace name
  unprefixed : ∀ q : QualifiedName, q.pfx = none → top.binding? "" = none →
    q.space? top e = some r.targetSpace

/-- A registry takes the declaration `e` for one of another namespace: it is
never built in, and names without a prefix lead elsewhere if there is no default
namespace. -/
structure Registry.Disowns (r : Registry) (top e : Declaration) : Prop where
  space : e.space ≠ r.targetSpace
  suppresses : ∀ builtins, r.suppresses builtins e = false
  unprefixed : ∀ q : QualifiedName, q.pfx = none → top.binding? "" = none →
    q.space? top e = some e.space

section

variable {r : Registry} {e : Declaration}

/-- A plain name without a default namespace is of the namespace of its node. -/
theorem QualifiedName.space?_unprefixed {q : QualifiedName} {top : Declaration}
    (hpfx : q.pfx = none) (htop : top.binding? "" = none) (e : Declaration) :
    q.space? top e = some e.space := by
  simp [space?, hpfx, htop]

/-- A registry owns the names of its own namespace. -/
theorem Registry.owns_of_space_eq (h : e.space = r.targetSpace) (top : Declaration) :
    r.Owns top e where
  space := h
  suppresses := by
    intro builtins name hname
    simp [suppresses, hname, h]
  unprefixed := by
    intro q hpfx htop
    rw [QualifiedName.space?_unprefixed hpfx htop, h]

/-- A registry disowns the names of every other namespace. -/
theorem Registry.disowns_of_space_ne (h : e.space ≠ r.targetSpace) (top : Declaration) :
    r.Disowns top e where
  space := h
  suppresses := by
    intro builtins
    cases hname : e.name with
    | none => simp [suppresses, hname]
    | some name => simp [suppresses, hname, h]
  unprefixed := fun q hpfx htop => QualifiedName.space?_unprefixed hpfx htop e

end

/-- **Inherited namespaces.**  Let a text load.  Then its document has a
registry.  All declarations whose entries name no namespace have got that of the
document, and this is the registry's own unless the document contradicts itself.
If it does, all of them count as declarations of another namespace. -/
theorem space_of_inherited {a b : Arena} {text : String} {root : NodeId}
    (h : a.load text = (b, .ok root)) :
    ∃ d top r, Document.ofText text = .ok d ∧ b.get? root = some top ∧
      Registry.forDocument b root = .ok r ∧
      ∀ p ∈ place a.size d.entry, p.head.space = none → ∃ e, b.get? p.id = some e ∧
        e.space = d.space ∧ (¬ d.Contradictory → r.Owns top e) ∧
          (d.Contradictory → r.Disowns top e) := by
  obtain ⟨d, htext, hload⟩ := Arena.exists_document_of_load h
  obtain ⟨rfl, hloaded⟩ := Document.loaded_of_load hload
  obtain ⟨top, r, htop, hr, htarget⟩ := hloaded.forDocument
  refine ⟨d, top, r, htext, htop, hr, ?_⟩
  intro p hp hinherits
  obtain ⟨children, -, hget⟩ := hloaded.placed p hp
  refine ⟨_, hget, ?_⟩
  generalize he : { p.head.declaration d.space with children } = e
  have hspace : e.space = d.space := by simp [← he, Head.declaration, hinherits]
  have hiff : e.space = r.targetSpace ↔ ¬ d.Contradictory := by
    rw [hspace, htarget, d.targetSpace_eq_iff]
  refine ⟨hspace, ?_, ?_⟩
  · intro hsame
    exact Registry.owns_of_space_eq (hiff.mpr hsame) top
  · intro hcontradictory
    exact Registry.disowns_of_space_ne (fun heq => hiff.mp heq hcontradictory) top

/-! A document that names its namespace in the attribute only, and one that
names two; in both a declaration inherits. -/

/-- The first text; the inner declaration stands below one that has a namespace
of its own. -/
def nestedText : String :=
  "\x7b\"kind\":\"schema\",\"attributes\":\x7b\"targetNamespace\":\"urn:t\"\x7d," ++
  "\"children\":[\x7b\"kind\":\"group\",\"namespace\":\"urn:x\"," ++
  "\"children\":[\x7b\"kind\":\"element\",\"name\":\"e\"\x7d]\x7d]\x7d"

def nestedArena : Arena where
  nodes := #[
    { kind := .schema, space := "urn:t", attributes := .ofList [("targetNamespace", "urn:t")],
      children := [⟨1⟩] },
    { kind := .group, space := "urn:x", children := [⟨2⟩] },
    { kind := .element, name := some "e", space := "urn:t" }]

def contradictoryText : String :=
  "\x7b\"kind\":\"schema\",\"namespace\":\"urn:p\"," ++
  "\"attributes\":\x7b\"targetNamespace\":\"urn:t\"\x7d," ++
  "\"children\":[\x7b\"kind\":\"element\",\"name\":\"e\"\x7d]\x7d"

def contradictoryArena : Arena where
  nodes := #[
    { kind := .schema, space := "urn:p", attributes := .ofList [("targetNamespace", "urn:t")],
      children := [⟨1⟩] },
    { kind := .element, name := some "e", space := "urn:p" }]

/-- The places of a document's entries, with the namespaces that they name. -/
def Document.named (d : Document) : List (NodeId × Option String) :=
  (place 0 d.entry).map fun p => (p.id, p.head.space)

/-- The inner declaration of the first document is one of its registry's
namespace. -/
theorem space_of_inherited_nested :
    (∅ : Arena).load nestedText = (nestedArena, .ok ⟨0⟩) ∧
      ∃ r top e, Registry.forDocument nestedArena ⟨0⟩ = .ok r ∧
        nestedArena.get? ⟨0⟩ = some top ∧ nestedArena.get? ⟨2⟩ = some e ∧ r.Owns top e := by
  have hload : (∅ : Arena).load nestedText = (nestedArena, .ok ⟨0⟩) := by decide +kernel
  have hread : (Document.ofText nestedText).toOption.map (fun d => (d.head.space, d.named)) =
      some (none, [(⟨0⟩, none), (⟨1⟩, some "urn:x"), (⟨2⟩, none)]) := by
    decide +kernel
  obtain ⟨d, top, r, htext, htop, hr, hinherited⟩ := space_of_inherited hload
  rw [htext] at hread
  obtain ⟨hspace, hnamed⟩ := Prod.mk.inj (Option.some.inj hread)
  have hsame : ¬ d.Contradictory := by
    rintro ⟨own, target, hown, -⟩
    simp [hspace] at hown
  have hmem : (⟨2⟩, none) ∈ d.named := by simp [hnamed]
  obtain ⟨p, hp, hpair⟩ := List.mem_map.mp hmem
  obtain ⟨hid, hinherits⟩ := Prod.mk.inj hpair
  obtain ⟨e, he, -, howns, -⟩ := hinherited p hp hinherits
  exact ⟨hload, r, top, e, hr, htop, hid ▸ he, howns hsame⟩

/-- The inner declaration of the second document names no namespace and is not
one of its registry's. -/
theorem space_of_inherited_contradictory :
    (Document.ofText contradictoryText).toOption.map Document.named =
        some [(⟨0⟩, some "urn:p"), (⟨1⟩, none)] ∧
      (∅ : Arena).load contradictoryText = (contradictoryArena, .ok ⟨0⟩) ∧
      ∃ r e, Registry.forDocument contradictoryArena ⟨0⟩ = .ok r ∧
        contradictoryArena.get? ⟨1⟩ = some e ∧ r.targetSpace = "urn:t" ∧ e.space = "urn:p" :=
  ⟨by decide +kernel, by decide +kernel, _, _, rfl, rfl, rfl, rfl⟩

end SchemaCatalog
