import SchemaCatalog.Proofs.Session.Assembly
import SchemaCatalog.Proofs.Walk.ExactlyOnce

/-!
# SchemaCatalog.Proofs.Walk.Coverage

Walking loaded documents.  When each loaded document has been added once, the
registries list the roots of the documents and nothing else (`isRoot_iff`).
The walk then calls every declaration that is not a root, in the name of the
document that it was loaded with: `mem_called_iff_inner`, `root_of_mem_calls`
and `registry_of_mem_calls`.
-/

namespace SchemaCatalog

namespace Session

open Walk
open Relation (ReflTransGen TransGen)

/-- A registry lists the roots of the documents of its namespace. -/
theorem Represented.mem_roots_iff {s : Session} {roots : List NodeId} (h : s.Represented roots)
    {space : String} {r : Registry} (hr : s.registries.get? space = some r) {id : NodeId} :
    id ∈ r.roots ↔
      id ∈ roots ∧ ∃ d, s.arena.get? id = some d ∧ Registry.targetSpaceOf d = space := by
  obtain ⟨first, later, hdocs, hrep⟩ := (h.represents space).of_get? hr
  rw [hrep.roots, List.mem_eraseDups, ← hdocs, List.mem_map]
  constructor
  · rintro ⟨⟨root, d⟩, hmem, rfl⟩
    obtain ⟨hroot, hd, hspace⟩ := mem_documents_iff.mp hmem
    exact ⟨hroot, d, hd, hspace⟩
  · rintro ⟨hroot, d, hd, hspace⟩
    exact ⟨(id, d), mem_documents_iff.mpr ⟨hroot, hd, hspace⟩, rfl⟩

/-- The registries list the roots of the documents that were added. -/
theorem Represented.isRoot_iff {s : Session} {roots : List NodeId} (h : s.Represented roots)
    {id : NodeId} : s.IsRoot id ↔ id ∈ roots := by
  constructor
  · rintro ⟨r, hr, hid⟩
    obtain ⟨space, hspace⟩ := mem_registries_values.mp hr
    exact ((h.mem_roots_iff hspace).mp hid).1
  · intro hid
    obtain ⟨d, hd⟩ := Arena.valid_iff.mp (h.validRoots id hid)
    have hne := documents_ne_nil.mpr ⟨id, hid, d, hd, rfl⟩
    obtain ⟨r, hr⟩ := (h.represents (Registry.targetSpaceOf d)).exists_get? hne
    exact ⟨r, mem_registries_values.mpr ⟨_, hr⟩, (h.mem_roots_iff hr).mpr ⟨hid, d, hd, rfl⟩⟩

/-- Nothing below a declaration of a document lies outside. -/
theorem LaidOut.has_of_transGen {a : Arena} {documents : List Span} (h : LaidOut a documents)
    {d : Span} (hd : d ∈ documents) {p id : NodeId} (hp : d.Has p) (hpath : TransGen a.Edge p id) :
    d.Has id := by
  induction hpath with
  | single hpq => exact h.stays d hd _ _ hp hpq
  | tail _ hqr ih => exact h.stays d hd _ _ ih hqr

section

variable {s : Session} {documents : List Span} {roots : List NodeId}

/-- The documents have been loaded, and each has been added once. -/
structure Complete (s : Session) (documents : List Span) (roots : List NodeId) : Prop where
  rooted : s.Rooted
  laidOut : LaidOut s.arena documents
  represented : s.Represented roots
  roots : roots.Perm (documents.map (·.root))

/-- The roots of a complete session are those of its documents. -/
theorem Complete.isRoot_iff (h : s.Complete documents roots) {id : NodeId} :
    s.IsRoot id ↔ ∃ d ∈ documents, d.root = id := by
  rw [h.represented.isRoot_iff, h.roots.mem_iff, List.mem_map]

theorem Complete.has_root (h : s.Complete documents roots) {d : Span} (hd : d ∈ documents) :
    d.Has d.root :=
  ⟨Nat.le_refl _, (h.laidOut.valid d hd).1⟩

/-- A call on a declaration of a document comes from the root of the document. -/
theorem Complete.root_of_mem_calls (h : s.Complete documents roots) {c : Call}
    (hc : c ∈ calls s.itinerary) :
    ∃ d ∈ documents, c.root = d.root ∧ d.Inner c.node := by
  obtain ⟨t, ht, hlead⟩ := leads_of_mem_calls_route hc
  obtain ⟨r, hr, root, hroot, rfl⟩ := mem_enterAll.mp ht
  obtain ⟨hregistry, rfl, hpath⟩ := hlead
  obtain ⟨d, hd, hdroot⟩ := h.isRoot_iff.mp ⟨r, hr, hroot⟩
  refine ⟨d, hd, hdroot.symm, Span.inner_iff.mpr ⟨?_, ?_⟩⟩
  · refine h.laidOut.has_of_transGen hd (h.has_root hd) ?_
    rw [hdroot]
    exact hpath
  · intro hnode
    refine (fresh_of_mem_calls_route hc).2 ?_
    rw [hregistry, hnode, hdroot]
    exact hroot

/-- The registry of a call is that of the namespace of its document. -/
theorem Complete.registry_of_mem_calls (h : s.Complete documents roots) {c : Call}
    (hc : c ∈ calls s.itinerary) :
    ∃ e, s.arena.get? c.root = some e ∧
      s.registries.get? (Registry.targetSpaceOf e) = some c.registry := by
  obtain ⟨t, ht, hlead⟩ := leads_of_mem_calls_route hc
  obtain ⟨r, hr, root, hroot, rfl⟩ := mem_enterAll.mp ht
  obtain ⟨hregistry, rfl, -⟩ := hlead
  obtain ⟨space, hspace⟩ := mem_registries_values.mp hr
  obtain ⟨-, e, he, htarget⟩ := (h.represented.mem_roots_iff hspace).mp hroot
  exact ⟨e, he, by rw [htarget, hregistry, hspace]⟩

/-- **Every declaration of a document but its root** is called, and nothing else is. -/
theorem Complete.mem_called_iff_inner (h : s.Complete documents roots) {id : NodeId} :
    id ∈ called s.itinerary ↔ ∃ d ∈ documents, d.Inner id := by
  constructor
  · intro hid
    obtain ⟨c, hc, rfl⟩ := mem_called.mp hid
    obtain ⟨d, hd, -, hinner⟩ := h.root_of_mem_calls hc
    exact ⟨d, hd, hinner⟩
  · rintro ⟨d, hd, hinner⟩
    obtain ⟨hhas, hne⟩ := Span.inner_iff.mp hinner
    have hroot : ¬ s.IsRoot id := by
      intro hroot
      obtain ⟨e, he, rfl⟩ := h.isRoot_iff.mp hroot
      obtain rfl : d = e := h.laidOut.eq_of_has hd he hhas (h.has_root he)
      exact hne rfl
    have hbelow : s.Below id := by
      refine ⟨d.root, h.isRoot_iff.mpr ⟨d, hd, rfl⟩, ?_⟩
      exact (Relation.reflTransGen_iff_eq_or_transGen.mp (h.laidOut.reaches d hd id hhas)).resolve_left
        hne
    exact (mem_called_iff_below h.laidOut.closed h.laidOut.unprocessed (fun _ => Iff.rfl) hroot).mpr
      hbelow

end

/-- Sessions made of loaded documents are complete once all have been added. -/
theorem Assembled.complete {builtins : Builtins} {dedup : Bool} {documents : List Span}
    {roots : List NodeId} {s : Session} (h : Assembled builtins dedup documents roots s)
    (hroots : roots.Perm (documents.map (·.root))) : s.Complete documents roots where
  rooted := h.adds.frame.2.2.2 (Built.new builtins dedup).rooted
  laidOut := h.laidOut
  represented := h.adds.represented (Built.new builtins dedup).rooted
    (represented_new ∅ builtins dedup)
  roots := hroots

end Session

end SchemaCatalog
