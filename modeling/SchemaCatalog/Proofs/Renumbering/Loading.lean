import SchemaCatalog.Proofs.Fragment.Linking
import SchemaCatalog.Proofs.Renumbering.Arena
import SchemaCatalog.Proofs.Table

/-!
# SchemaCatalog.Proofs.Renumbering.Loading

Texts are loaded alike into arenas one of which hosts the other.  The two loadings
keep step all the way, through every entry that is added and every child that is
set, so they come to the same end, well or not, with the same declarations added
before (`Arena.Hosts.load`).

The operations that change an arena from outside are listed as `Edit`.  Each of
them has the same answer in both arenas, up to numbers (`Arena.Hosts.run`).
-/

namespace SchemaCatalog

/-! ## loading into both -/

namespace Fragment

def Slot.renumber (f : NodeId → NodeId) : Slot → Slot
  | .node id => .node (f id)
  | .link anchor => .link anchor

namespace Loading

/-- A document is being loaded into `l'` as into `l`, with other numbers. -/
structure Hosts (f : NodeId → NodeId) (l l' : Loading) : Prop where
  arena : Arena.Hosts f l.arena l'.arena
  anchors : l'.anchors = l.anchors.mapValues f
  waiting : l'.waiting = l.waiting.map (Prod.map f (List.map (Slot.renumber f)))

section

variable {f : NodeId → NodeId} {l l' : Loading}

/-- Allocation commutes with the renumbering. -/
theorem Hosts.alloc (h : Hosts f l l') (space : String) (head : Head) :
    (l'.alloc space head).1 = f (l.alloc space head).1 ∧
      Hosts f (l.alloc space head).2 (l'.alloc space head).2 :=
  ⟨(h.arena.next 0).symm, h.arena.alloc (head.declaration space), h.anchors, h.waiting⟩

/-- Naming a declaration commutes with the renumbering, with the same fault. -/
theorem Hosts.name (h : Hosts f l l') (id : NodeId) (head : Head) :
    Hosts f (l.name id head).1 (l'.name (f id) head).1 ∧
      (l'.name (f id) head).2 = (l.name id head).2 := by
  rw [Loading.name, Loading.name]
  cases head.anchor with
  | none => exact ⟨h, rfl⟩
  | some anchor =>
      simp only [h.anchors, Table.contains_mapValues]
      split
      · exact ⟨h, rfl⟩
      · exact ⟨⟨h.arena, Table.insert_mapValues f l.anchors anchor id, h.waiting⟩, rfl⟩

/-- Waiting for children commutes with the renumbering. -/
theorem Hosts.wait (h : Hosts f l l') (id : NodeId) (slots : List Slot) :
    Hosts f (l.wait id slots) (l'.wait (f id) (slots.map (Slot.renumber f))) where
  arena := h.arena
  anchors := h.anchors
  waiting := by
    rw [Loading.wait, Loading.wait, h.waiting]
    rfl

end

mutual

/-- **An entry** is added to both. -/
theorem Hosts.add {f : NodeId → NodeId} {l l' : Loading} (h : Hosts f l l') (space : String)
    (entry : Fragment) :
    Hosts f (l.add space entry).1 (l'.add space entry).1 ∧
      (l'.add space entry).2 = (l.add space entry).2.map (Slot.renumber f) := by
  cases entry with
  | link anchor => exact ⟨h, rfl⟩
  | declaration head children =>
      obtain ⟨hid, halloc⟩ := h.alloc space head
      obtain ⟨hnamed, hdefect⟩ := halloc.name (l.alloc space head).1 head
      rw [← hid] at hnamed hdefect
      simp only [Loading.add]
      cases hname : (l.alloc space head).2.name (l.alloc space head).1 head with
      | mk l₁ defect =>
          cases hname' : (l'.alloc space head).2.name (l'.alloc space head).1 head with
          | mk l₁' defect' =>
              rw [hname, hname'] at hnamed hdefect
              obtain rfl : defect' = defect := hdefect
              cases defect' with
              | some defect => exact ⟨hnamed, rfl⟩
              | none =>
                  obtain ⟨hbelow, hslots⟩ := Hosts.addAll hnamed space children
                  dsimp only
                  cases hall : l₁.addAll space children with
                  | mk l₂ slots =>
                      cases hall' : l₁'.addAll space children with
                      | mk l₂' slots' =>
                          rw [hall, hall'] at hbelow hslots
                          obtain rfl : slots' = slots.map (List.map (Slot.renumber f)) := hslots
                          cases slots with
                          | error defect => exact ⟨hbelow, rfl⟩
                          | ok slots =>
                              simp only [Except.map, hid]
                              exact ⟨hbelow.wait (l.alloc space head).1 slots, rfl⟩

/-- So are entries in order. -/
theorem Hosts.addAll {f : NodeId → NodeId} {l l' : Loading} (h : Hosts f l l') (space : String)
    (entries : List Fragment) :
    Hosts f (l.addAll space entries).1 (l'.addAll space entries).1 ∧
      (l'.addAll space entries).2 =
        (l.addAll space entries).2.map (List.map (Slot.renumber f)) := by
  cases entries with
  | nil => exact ⟨h, rfl⟩
  | cons entry rest =>
      obtain ⟨hfirst, hslot⟩ := Hosts.add h space entry
      simp only [Loading.addAll]
      cases hadd : l.add space entry with
      | mk l₁ slot =>
          cases hadd' : l'.add space entry with
          | mk l₁' slot' =>
              rw [hadd, hadd'] at hfirst hslot
              obtain rfl : slot' = slot.map (Slot.renumber f) := hslot
              cases slot with
              | error defect => exact ⟨hfirst, rfl⟩
              | ok slot =>
                  obtain ⟨hrest, hslots⟩ := Hosts.addAll hfirst space rest
                  simp only [Except.map]
                  refine ⟨hrest, ?_⟩
                  rw [hslots]
                  cases (l₁.addAll space rest).2 with
                  | error defect => rfl
                  | ok slots => rfl

end

/-- Slots are settled alike. -/
theorem settle_renumber (f : NodeId → NodeId) (anchors : Table String NodeId) (slots : List Slot) :
    settle (anchors.mapValues f) (slots.map (Slot.renumber f)) =
      (settle anchors slots).map (List.map f) := by
  induction slots with
  | nil => rfl
  | cons slot slots ih =>
      have hrest : ∀ id : NodeId,
          (settle (anchors.mapValues f) (slots.map (Slot.renumber f))).map (f id :: ·) =
            ((settle anchors slots).map (id :: ·)).map (List.map f) := by
        intro id
        rw [ih]
        cases settle anchors slots with
        | error defect => rfl
        | ok children => rfl
      cases slot with
      | node id => exact hrest id
      | link anchor =>
          rw [List.map_cons, Slot.renumber, settle, settle, Table.get?_mapValues]
          cases anchors.get? anchor with
          | none => rfl
          | some id => exact hrest id

/-- **Children** are set in both. -/
theorem hosts_connect {f : NodeId → NodeId} {a b : Arena} (h : Arena.Hosts f a b)
    (anchors : Table String NodeId) (waiting : List (NodeId × List Slot)) :
    Arena.Hosts f (connect anchors a waiting).1
        (connect (anchors.mapValues f) b
          (waiting.map (Prod.map f (List.map (Slot.renumber f))))).1 ∧
      (connect (anchors.mapValues f) b
          (waiting.map (Prod.map f (List.map (Slot.renumber f))))).2 =
        (connect anchors a waiting).2 := by
  induction waiting generalizing a b with
  | nil => exact ⟨h, rfl⟩
  | cons w waiting ih =>
      simp only [List.map_cons, connect, Prod.map, settle_renumber]
      cases settle anchors w.2 with
      | error defect => exact ⟨h, rfl⟩
      | ok children =>
          exact ih (h.modify (g := fun d => { d with children }) (fun _ => rfl) w.1)

end Loading

end Fragment

open Fragment Fragment.Loading in
/-- **A document** is loaded into both. -/
theorem Document.hosts_load {f : NodeId → NodeId} {a b : Arena} (h : Arena.Hosts f a b)
    (d : Document) :
    Arena.Hosts f (d.load a).1 (d.load b).1 ∧ (d.load b).2 = (d.load a).2.map f := by
  have hstart : Loading.Hosts f { arena := a } { arena := b } := ⟨h, rfl, rfl⟩
  obtain ⟨hadded, hslot⟩ := hstart.add d.space (.declaration d.head d.children)
  simp only [Document.load]
  cases hadd : add d.space { arena := a } (.declaration d.head d.children) with
  | mk l slot =>
      cases hadd' : add d.space { arena := b } (.declaration d.head d.children) with
      | mk l' slot' =>
          rw [hadd, hadd'] at hadded hslot
          obtain rfl : slot' = slot.map (Slot.renumber f) := hslot
          cases slot with
          | error defect => exact ⟨hadded.arena, rfl⟩
          | ok slot =>
              obtain ⟨hconnected, hdefect⟩ :=
                hosts_connect hadded.arena l.anchors l.waiting.reverse
              rw [List.map_reverse, ← hadded.waiting, ← hadded.anchors] at hconnected hdefect
              simp only [Except.map]
              cases hconnect : connect l.anchors l.arena l.waiting.reverse with
              | mk a' defect =>
                  cases hconnect' : connect l'.anchors l'.arena l'.waiting.reverse with
                  | mk b' defect' =>
                      rw [hconnect, hconnect'] at hconnected hdefect
                      obtain rfl : defect' = defect := hdefect
                      cases defect' with
                      | some defect => exact ⟨hconnected, rfl⟩
                      | none => exact ⟨hconnected, congrArg Except.ok (h.next 0).symm⟩

namespace Arena

section

variable {f : NodeId → NodeId} {a b : Arena}

/-- **A text** is loaded into both, well or not. -/
theorem Hosts.load (h : Hosts f a b) (text : String) :
    Hosts f (a.load text).1 (b.load text).1 ∧
      (b.load text).2 = translate f f (a.load text).2 := by
  simp only [Arena.load]
  cases Document.ofText text with
  | error fault => exact ⟨h, rfl⟩
  | ok d =>
      obtain ⟨hloaded, hroot⟩ := d.hosts_load h
      dsimp only
      cases hload : d.load a with
      | mk a' root =>
          cases hload' : d.load b with
          | mk b' root' =>
              rw [hload, hload'] at hloaded hroot
              obtain rfl : root' = root.map f := hroot
              cases root with
              | error defect => exact ⟨hloaded, rfl⟩
              | ok root => exact ⟨hloaded, rfl⟩

end

end Arena

/-! ## edits -/

/-- What can be done to an arena from outside. -/
inductive Edit
  | alloc (d : Declaration)
  | allocChild (parent : NodeId) (d : Declaration)
  | addChild (parent child : NodeId)
  /-- A declaration is changed in any way. -/
  | put (id : NodeId) (d : Declaration)
  | load (text : String)

namespace Edit

def renumber (f : NodeId → NodeId) : Edit → Edit
  | alloc d => alloc (d.renumber f)
  | allocChild parent d => allocChild (f parent) (d.renumber f)
  | addChild parent child => addChild (f parent) (f child)
  | put id d => put (f id) (d.renumber f)
  | load text => load text

/-- The arena after an edit, and the declaration that it has added, if it has added
one. An edit that fails leaves the arena as it is, unless it loads a text. -/
def run (a : Arena) : Edit → Arena × Except Error (Option NodeId)
  | alloc d => ((a.alloc d).2, .ok (some (a.alloc d).1))
  | allocChild parent d => match a.allocChild parent d with
    | .ok (id, b) => (b, .ok (some id))
    | .error e => (a, .error e)
  | addChild parent child => match a.addChild parent child with
    | .ok b => (b, .ok none)
    | .error e => (a, .error e)
  | put id d => (a.modify id fun _ => d, (a.get id).map fun _ => none)
  | load text => ((a.load text).1, (a.load text).2.map some)

end Edit

namespace Arena

section

variable {f : NodeId → NodeId} {a b : Arena}

/-- No edit makes the arena smaller. -/
theorem size_le_run (a : Arena) (e : Edit) : a.size ≤ (e.run a).1.size := by
  cases e with
  | alloc d => exact (extends_alloc a d).size_le
  | allocChild parent d =>
      simp only [Edit.run]
      cases h : a.allocChild parent d with
      | error e => exact Nat.le_refl _
      | ok p => exact (keeps_allocChild h).size_le
  | addChild parent child =>
      simp only [Edit.run]
      cases h : a.addChild parent child with
      | error e => exact Nat.le_refl _
      | ok b => exact (keeps_addChild h).size_le
  | put id d => exact Nat.le_of_eq (size_modify a id _).symm
  | load text => exact (annexed_load a text).grown.size_le

/-- **Every edit** has the same answer in both, up to numbers, and leaves one arena
hosted by the other. -/
theorem Hosts.run (h : Hosts f a b) (e : Edit) :
    Hosts f (e.run a).1 ((e.renumber f).run b).1 ∧
      ((e.renumber f).run b).2 = translate f (Option.map f) (e.run a).2 := by
  cases e with
  | alloc d => exact ⟨h.alloc d, congrArg (fun id => Except.ok (some id)) (h.next 0).symm⟩
  | allocChild parent d =>
      simp only [Edit.renumber, Edit.run, Arena.allocChild, h.get?]
      cases a.get? parent with
      | none => exact ⟨h, rfl⟩
      | some p =>
          have hid : f ⟨a.size⟩ = ⟨b.size⟩ := h.next 0
          have hlinked := (h.alloc d).link parent ⟨a.size⟩
          rw [hid] at hlinked
          exact ⟨hlinked, congrArg (fun id => Except.ok (some id)) hid.symm⟩
  | addChild parent child =>
      simp only [Edit.renumber, Edit.run, Arena.addChild, h.get?]
      cases a.get? child with
      | none => exact ⟨h, rfl⟩
      | some c =>
          cases a.get? parent with
          | none => exact ⟨h, rfl⟩
          | some p => exact ⟨h.link parent child, rfl⟩
  | put id d =>
      refine ⟨h.modify (g := fun _ => d) (fun _ => rfl) id, ?_⟩
      simp only [Edit.renumber, Edit.run, Arena.get, h.get?]
      cases a.get? id with
      | none => rfl
      | some d => rfl
  | load text =>
      obtain ⟨hloaded, hanswer⟩ := h.load text
      refine ⟨hloaded, ?_⟩
      simp only [Edit.renumber, Edit.run, hanswer]
      cases (a.load text).2 with
      | error e => rfl
      | ok root => rfl

end

end Arena

end SchemaCatalog
