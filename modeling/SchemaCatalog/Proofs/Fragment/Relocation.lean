import SchemaCatalog.Proofs.Fragment.Outcome

/-!
# SchemaCatalog.Proofs.Fragment.Relocation

A document is the same wherever it is loaded.  The declarations of a document
stand on the places from some place on, and which place that is makes no
difference but to the ids (`place_shift`).  So what a document declares can be
told by itself, with ids that count from its root (`Document.Declares`), and
wherever the document has been loaded, this is what stands there
(`Document.Loaded.exists_declares`).  Nor does it depend on the place whether a
text loads at all (`Loadable.exists_load`).
-/

namespace SchemaCatalog

/-- An id that counts from place `n` on. -/
def NodeId.shift (n : Nat) (id : NodeId) : NodeId := ⟨n + id.index⟩

def Declaration.shift (n : Nat) (e : Declaration) : Declaration :=
  { e with children := e.children.map (NodeId.shift n) }

/-- Look-ups among entries that have been mapped. -/
theorem Table.get?_foldl_insert_map {f : NodeId → NodeId} (entries : List (String × NodeId))
    {t t' : Table String NodeId} (h : ∀ key, t'.get? key = (t.get? key).map f) (key : String) :
    ((entries.map fun e => (e.1, f e.2)).foldl (fun t e => t.insert e.1 e.2) t').get? key =
      ((entries.foldl (fun t e => t.insert e.1 e.2) t).get? key).map f := by
  induction entries generalizing t t' with
  | nil => exact h key
  | cons e entries ih =>
      rw [List.map_cons, List.foldl_cons, List.foldl_cons]
      refine ih fun q => ?_
      rw [Table.get?_insert, Table.get?_insert, h]
      split <;> rfl

namespace Fragment

/-! ## places that are shifted -/

def Slot.shift (n : Nat) : Slot → Slot
  | .node id => .node (id.shift n)
  | .link anchor => .link anchor

def Placed.shift (n : Nat) (p : Placed) : Placed :=
  ⟨p.id.shift n, p.head, p.slots.map (Slot.shift n)⟩

theorem slot_shift (n m : Nat) (entry : Fragment) : slot (n + m) entry = (slot m entry).shift n := by
  cases entry with
  | link anchor => rfl
  | declaration head children => rfl

/-- The slots of entries that stand further on are shifted along. -/
theorem slots_shift (n m : Nat) (entries : List Fragment) :
    slots (n + m) entries = (slots m entries).map (Slot.shift n) := by
  induction entries generalizing m with
  | nil => rfl
  | cons entry rest ih => rw [slots, slots, List.map_cons, slot_shift, Nat.add_assoc, ih]

mutual

/-- **Entries may stand anywhere.** -/
theorem place_shift (n m : Nat) (entry : Fragment) :
    place (n + m) entry = (place m entry).map (Placed.shift n) := by
  cases entry with
  | link anchor => rfl
  | declaration head children =>
      rw [place, place, List.map_cons, Nat.add_assoc, slots_shift, placeAll_shift]
      rfl

/-- Entries that stand further on are placed alike, shifted along. -/
theorem placeAll_shift (n m : Nat) (entries : List Fragment) :
    placeAll (n + m) entries = (placeAll m entries).map (Placed.shift n) := by
  cases entries with
  | nil => rfl
  | cons entry rest =>
      rw [placeAll, placeAll, List.map_append, place_shift, Nat.add_assoc, placeAll_shift]

end

/-- Anchors are shifted along with their places. -/
theorem anchored_shift (n : Nat) (ps : List Placed) :
    anchored (ps.map (Placed.shift n)) = (anchored ps).map fun e => (e.1, e.2.shift n) := by
  rw [anchored, anchored, List.filterMap_map, List.map_filterMap]
  refine List.filterMap_congr fun p _ => ?_
  rw [Function.comp_apply, Option.map_map]
  rfl

/-- A slot is filled by one child at most. -/
theorem Slot.rightUnique_fills (anchors : Table String NodeId) :
    Relator.RightUnique (Slot.Fills anchors) := by
  intro slot c c' h h'
  cases slot with
  | node id => exact Eq.trans h (Eq.symm h')
  | link anchor => exact Option.some.inj (Eq.trans (Eq.symm h) h')

end Fragment

/-! ## what a document declares -/

namespace Document

open Fragment Fragment.Loading

variable {d : Document}

/-- At a place that counts from the root, the document declares this, with
children that count from the root as well. -/
def Declares (d : Document) (k : NodeId) (e : Declaration) : Prop :=
  ∃ p ∈ place 0 d.entry, p.id = k ∧ ∃ children,
    List.Forall₂ (Slot.Fills (d.anchorsFrom 0)) p.slots children ∧
      e = { p.head.declaration d.space with children }

/-- A place of a document declares one thing only. -/
theorem Declares.unique {k : NodeId} {e e' : Declaration} (h : d.Declares k e)
    (h' : d.Declares k e') : e = e' := by
  obtain ⟨p, hp, rfl, children, hchildren, rfl⟩ := h
  obtain ⟨p', hp', hid, children', hchildren', rfl⟩ := h'
  obtain rfl : p' = p := List.inj_on_of_nodup_map (nodup_place 0 d.entry) hp' hp hid
  rw [List.right_unique_forall₂' (Slot.rightUnique_fills _) hchildren hchildren']

/-- Children belong to the document. -/
theorem Declares.inside {k : NodeId} {e : Declaration} (h : d.Declares k e) :
    ∀ c ∈ e.children, c.index < d.entry.size := by
  obtain ⟨p, hp, -, children, hchildren, rfl⟩ := h
  intro c hc
  have hflip : List.Forall₂ (flip (Slot.Fills (d.anchorsFrom 0))) children p.slots := hchildren.flip
  obtain ⟨slot, hslot, hfills⟩ := exists_counterpart hflip hc
  have hhigh := (fills_inside hp hslot hfills).2
  rwa [Nat.zero_add] at hhigh

/-- Anchors are carried by the same declarations wherever the document stands. -/
theorem get?_anchorsFrom (d : Document) (n : Nat) (x : String) :
    (d.anchorsFrom n).get? x = ((d.anchorsFrom 0).get? x).map (NodeId.shift n) := by
  have hplace : place n d.entry = (place 0 d.entry).map (Placed.shift n) := place_shift n 0 d.entry
  rw [anchorsFrom, anchorsFrom, hplace, anchored_shift]
  exact Table.get?_foldl_insert_map _ (fun _ => rfl) x

/-- What fills a shifted slot is the shift of what fills the slot. -/
theorem exists_fills_of_shift {n : Nat} {slot : Slot} {c : NodeId}
    (h : (slot.shift n).Fills (d.anchorsFrom n) c) :
    ∃ c₀, slot.Fills (d.anchorsFrom 0) c₀ ∧ c₀.shift n = c := by
  cases slot with
  | node id => exact ⟨id, rfl, Eq.symm h⟩
  | link anchor =>
      have hget : (d.anchorsFrom n).get? anchor = some c := h
      rw [get?_anchorsFrom] at hget
      exact Option.map_eq_some_iff.mp hget

/-- The children of a shifted place are the shift of those of the place. -/
theorem exists_children_of_shift {n : Nat} {slots : List Slot} {children : List NodeId}
    (h : List.Forall₂ (Slot.Fills (d.anchorsFrom n)) (slots.map (Slot.shift n)) children) :
    ∃ cs, List.Forall₂ (Slot.Fills (d.anchorsFrom 0)) slots cs ∧
      cs.map (NodeId.shift n) = children := by
  induction slots generalizing children with
  | nil =>
      rw [List.map_nil, List.forall₂_nil_left_iff] at h
      exact ⟨[], .nil, h.symm⟩
  | cons slot slots ih =>
      rw [List.map_cons, List.forall₂_cons_left_iff] at h
      obtain ⟨c, children, hc, hchildren, rfl⟩ := h
      obtain ⟨c₀, hc₀, rfl⟩ := exists_fills_of_shift hc
      obtain ⟨cs, hcs, rfl⟩ := ih hchildren
      exact ⟨c₀ :: cs, .cons hc₀ hcs, rfl⟩

/-- **A loaded document** stands in the arena as it is declared. -/
theorem Loaded.exists_declares {a b : Arena} (h : d.Loaded a b) {k : NodeId}
    (hk : k.index < d.entry.size) :
    ∃ e, d.Declares k e ∧ b.get? (k.shift a.size) = some (e.shift a.size) := by
  obtain ⟨p, hp, rfl⟩ := mem_place_iff.mpr ⟨Nat.zero_le k.index, by rwa [Nat.zero_add]⟩
  have hshift : p.shift a.size ∈ place a.size d.entry := by
    have hplace : place a.size d.entry = (place 0 d.entry).map (Placed.shift a.size) :=
      place_shift a.size 0 d.entry
    rw [hplace]
    exact List.mem_map_of_mem hp
  obtain ⟨children, hchildren, hget⟩ := h.placed _ hshift
  obtain ⟨cs, hcs, rfl⟩ := exists_children_of_shift hchildren
  exact ⟨_, ⟨p, hp, rfl, cs, hcs, rfl⟩, hget⟩

end Document

/-! ## texts that load -/

/-- The text loads into some arena. -/
def Loadable (text : String) : Prop :=
  ∃ (a b : Arena) (root : NodeId), a.load text = (b, .ok root)

/-- **A text that loads** loads into every arena. -/
theorem Loadable.exists_load {text : String} (h : Loadable text) (a : Arena) :
    ∃ b root, a.load text = (b, .ok root) := by
  obtain ⟨a₀, b₀, root₀, hload⟩ := h
  obtain ⟨d, htext, hd⟩ := Arena.exists_document_of_load hload
  obtain ⟨root, hroot, -⟩ | ⟨defect, -, hbroken⟩ := Document.linked_or_broken d a
  · refine ⟨(d.load a).1, root, ?_⟩
    have hpair : d.load a = ((d.load a).1, .ok root) := by rw [← hroot]
    simp only [Arena.load, htext]
    rw [hpair]
  · obtain ⟨-, -, hlinked⟩ | ⟨defect', hload', -⟩ := Document.linked_or_broken d a₀
    · exact absurd hlinked hbroken.not_linked
    · rw [hd] at hload'
      contradiction

end SchemaCatalog
