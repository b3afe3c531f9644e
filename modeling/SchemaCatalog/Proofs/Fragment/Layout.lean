import SchemaCatalog.Proofs.Arena
import SchemaCatalog.Fragment.Load

/-!
# SchemaCatalog.Proofs.Fragment.Layout

Where the declarations of a fragment come to stand in the arena.  `place` puts
them on consecutive places in pre-order, and `slots` says what the children of
each are to be, all from the tree alone.  The first pass of the loader does
just that:

* `add_eq_ok`: if it succeeds, the arena holds the declarations at their
  places, their anchors are known and their children are waiting (`Added`);
* `add_grows`: however it ends, it has done nothing but append childless
  declarations.
-/

namespace SchemaCatalog

namespace Fragment

/-! ## places -/

/-- An entry of a declaration at its place. -/
structure Placed where
  id : NodeId
  head : Head
  /-- What its children are to be. -/
  slots : List Slot

mutual

/-- The number of declarations in an entry, its own included. -/
def size : Fragment → Nat
  | .link _ => 0
  | .declaration _ children => sizeAll children + 1

def sizeAll : List Fragment → Nat
  | [] => 0
  | entry :: rest => size entry + sizeAll rest

end

/-- The child that an entry is, if its declarations stand from place `n` on. -/
def slot (n : Nat) : Fragment → Slot
  | .link anchor => .link anchor
  | .declaration _ _ => .node ⟨n⟩

def slots (n : Nat) : List Fragment → List Slot
  | [] => []
  | entry :: rest => slot n entry :: slots (n + size entry) rest

mutual

/-- The declarations of an entry in pre-order, on the places from `n` on. -/
def place (n : Nat) : Fragment → List Placed
  | .link _ => []
  | .declaration head children =>
    ⟨⟨n⟩, head, slots (n + 1) children⟩ :: placeAll (n + 1) children

def placeAll (n : Nat) : List Fragment → List Placed
  | [] => []
  | entry :: rest => place n entry ++ placeAll (n + size entry) rest

end

mutual

/-- An entry takes as many places as it has declarations. -/
theorem length_place (n : Nat) (entry : Fragment) : (place n entry).length = size entry := by
  cases entry with
  | link anchor => rfl
  | declaration head children =>
      rw [place, size, List.length_cons, length_placeAll]

theorem length_placeAll (n : Nat) (entries : List Fragment) :
    (placeAll n entries).length = sizeAll entries := by
  cases entries with
  | nil => rfl
  | cons entry rest =>
      rw [placeAll, sizeAll, List.length_append, length_place, length_placeAll]

end

mutual

/-- The places are consecutive. -/
theorem ids_place (n : Nat) (entry : Fragment) :
    (place n entry).map (·.id.index) = List.range' n (size entry) := by
  cases entry with
  | link anchor => rfl
  | declaration head children =>
      rw [place, size, List.map_cons, ids_placeAll, List.range'_succ]

/-- The places of entries are numbered in a row. -/
theorem ids_placeAll (n : Nat) (entries : List Fragment) :
    (placeAll n entries).map (·.id.index) = List.range' n (sizeAll entries) := by
  cases entries with
  | nil => rfl
  | cons entry rest =>
      rw [placeAll, sizeAll, List.map_append, ids_place, ids_placeAll, List.range'_append_1]

end

/-! ## what stands below what -/

section

variable {R : NodeId → NodeId → Prop}

open Relation (ReflTransGen)

mutual

/-- Whatever leads from every declaration to its own children leads from an
entry's declaration to all below it. -/
theorem reaches_place {n : Nat} {entry : Fragment}
    (hR : ∀ p ∈ place n entry, ∀ id, Slot.node id ∈ p.slots → R p.id id) :
    ∀ p ∈ place n entry, ReflTransGen R ⟨n⟩ p.id := by
  cases entry with
  | link anchor => exact fun p hp => absurd hp List.not_mem_nil
  | declaration head children =>
      rw [place, List.forall_mem_cons] at hR ⊢
      refine ⟨.refl, fun p hp => ?_⟩
      obtain ⟨id, hid, hpath⟩ := reaches_placeAll hR.2 p hp
      exact .head (hR.1 id hid) hpath

/-- Each place of a list of entries is reached from one of the entries themselves. -/
theorem reaches_placeAll {n : Nat} {entries : List Fragment}
    (hR : ∀ p ∈ placeAll n entries, ∀ id, Slot.node id ∈ p.slots → R p.id id) :
    ∀ p ∈ placeAll n entries, ∃ id, Slot.node id ∈ slots n entries ∧ ReflTransGen R id p.id := by
  cases entries with
  | nil => exact fun p hp => absurd hp List.not_mem_nil
  | cons entry rest =>
      rw [placeAll, List.forall_mem_append] at hR ⊢
      rw [slots]
      constructor
      · intro p hp
        refine ⟨⟨n⟩, List.mem_cons.mpr (.inl ?_), reaches_place hR.1 p hp⟩
        cases entry with
        | link anchor => exact absurd hp List.not_mem_nil
        | declaration head children => rfl
      · intro p hp
        obtain ⟨id, hid, hpath⟩ := reaches_placeAll hR.2 p hp
        exact ⟨id, List.mem_cons_of_mem _ hid, hpath⟩

end

end

/-! ## the first pass of the loader -/

/-- The anchors of placed entries, with the declarations that carry them. -/
def anchored (ps : List Placed) : List (String × NodeId) :=
  ps.filterMap fun p => p.head.anchor.map fun anchor => (anchor, p.id)

namespace Loading

/-- `l'` is `l` with placed entries added. -/
structure Added (space : String) (l : Loading) (ps : List Placed) (l' : Loading) : Prop where
  nodes : l'.arena.nodes.toList = l.arena.nodes.toList ++ ps.map (·.head.declaration space)
  anchors : l'.anchors = (anchored ps).foldl (fun t e => t.insert e.1 e.2) l.anchors
  waiting : l'.waiting.Perm (ps.map (fun p => (p.id, p.slots)) ++ l.waiting)

theorem Added.nil (space : String) (l : Loading) : Added space l [] l where
  nodes := by rw [List.map_nil, List.append_nil]
  anchors := rfl
  waiting := .refl _

/-- What is added in two parts is added as a whole. -/
theorem Added.append {space : String} {l l' l'' : Loading} {ps qs : List Placed}
    (h : Added space l ps l') (h' : Added space l' qs l'') : Added space l (ps ++ qs) l'' where
  nodes := by rw [h'.nodes, h.nodes, List.map_append, List.append_assoc]
  anchors := by
    rw [h'.anchors, h.anchors, anchored, anchored, anchored, List.filterMap_append,
      List.foldl_append]
  waiting := by
    have hperm := h'.waiting.trans (List.Perm.append_left _ h.waiting)
    rw [List.map_append]
    refine hperm.trans ?_
    rw [← List.append_assoc]
    exact List.Perm.append_right _ List.perm_append_comm

theorem Added.size {space : String} {l l' : Loading} {ps : List Placed}
    (h : Added space l ps l') : l'.arena.size = l.arena.size + ps.length := by
  have hlength := congrArg List.length h.nodes
  simpa [Arena.size] using hlength

/-- Naming the declaration of an entry, well or not, comes down to adding it. -/
theorem arena_name {space : String} {l l₁ : Loading} {head : Head} {fault : Option FragmentDefect}
    (h : (l.alloc space head).2.name ⟨l.arena.size⟩ head = (l₁, fault)) :
    l₁.arena = (l.arena.alloc (head.declaration space)).2 ∧ l₁.waiting = l.waiting := by
  have hl₁ : l₁ = ((l.alloc space head).2.name ⟨l.arena.size⟩ head).1 := by rw [h]
  rw [hl₁, name]
  split
  · exact ⟨rfl, rfl⟩
  · split <;> exact ⟨rfl, rfl⟩

/-- Naming a declaration records its anchor, if it has one. -/
theorem anchors_name {l l' : Loading} {id : NodeId} {head : Head} (ss : List Slot)
    (h : l.name id head = (l', none)) :
    l'.anchors = (anchored [⟨id, head, ss⟩]).foldl (fun t e => t.insert e.1 e.2) l.anchors := by
  cases hanchor : head.anchor with
  | none =>
      simp only [name, hanchor, Prod.mk.injEq, and_true] at h
      rw [← h]
      simp [anchored, hanchor]
  | some anchor =>
      simp only [name, hanchor] at h
      split at h
      · simp at h
      · simp only [Prod.mk.injEq, and_true] at h
        rw [← h]
        simp [anchored, hanchor]

/-- An entry is added once its declaration is, its anchor is named, and what is
below it is added. -/
theorem Added.declaration {space : String} {l l₁ l' : Loading} {head : Head} {qs : List Placed}
    {ss : List Slot} (hname : (l.alloc space head).2.name ⟨l.arena.size⟩ head = (l₁, none))
    (h : Added space l₁ qs l') :
    Added space l (⟨⟨l.arena.size⟩, head, ss⟩ :: qs) (l'.wait ⟨l.arena.size⟩ ss) := by
  obtain ⟨harena, hwaiting⟩ := arena_name hname
  have hanchors := anchors_name ss hname
  constructor
  · rw [wait, h.nodes, harena, Arena.alloc, Array.toList_push, List.append_assoc]
    rfl
  · rw [wait, h.anchors, hanchors, anchored, anchored, anchored, ← List.foldl_append,
      ← List.filterMap_append, List.singleton_append]
    rfl
  · have hperm := h.waiting
    rw [hwaiting] at hperm
    exact hperm.cons _

mutual

/-- **Adding an entry** puts its declarations at their places. -/
theorem add_eq_ok {space : String} {l l' : Loading} {entry : Fragment} {s : Slot}
    (h : add space l entry = (l', .ok s)) :
    s = slot l.arena.size entry ∧ Added space l (place l.arena.size entry) l' := by
  cases entry with
  | link anchor =>
      simp only [add, Prod.mk.injEq, Except.ok.injEq] at h
      obtain ⟨rfl, rfl⟩ := h
      exact ⟨rfl, .nil space l⟩
  | declaration head children =>
      simp only [add] at h
      split at h
      · simp at h
      · next l₁ hname =>
        split at h
        · simp at h
        · next l₂ ss hall =>
          obtain ⟨hss, hadded⟩ := addAll_eq_ok hall
          have hsize : l₁.arena.size = l.arena.size + 1 := by
            rw [(arena_name hname).1, Arena.size_alloc]
          rw [hsize] at hss hadded
          simp only [Prod.mk.injEq, Except.ok.injEq] at h
          obtain ⟨rfl, rfl⟩ := h
          rw [place, ← hss]
          exact ⟨rfl, hadded.declaration hname⟩

/-- **Adding entries** puts their declarations at their places. -/
theorem addAll_eq_ok {space : String} {l l' : Loading} {entries : List Fragment} {ss : List Slot}
    (h : addAll space l entries = (l', .ok ss)) :
    ss = slots l.arena.size entries ∧ Added space l (placeAll l.arena.size entries) l' := by
  cases entries with
  | nil =>
      simp only [addAll, Prod.mk.injEq, Except.ok.injEq] at h
      obtain ⟨rfl, rfl⟩ := h
      exact ⟨rfl, .nil space l⟩
  | cons entry rest =>
      rw [addAll] at h
      split at h
      · simp at h
      · next l₁ s hfirst =>
        obtain ⟨hs, hadded⟩ := add_eq_ok hfirst
        cases hrest : addAll space l₁ rest with
        | mk l₂ outcome =>
            cases outcome with
            | error defect => simp [hrest, Except.map] at h
            | ok ss' =>
                obtain ⟨hss, hadded'⟩ := addAll_eq_ok hrest
                have hsize : l₁.arena.size = l.arena.size + size entry := by
                  rw [hadded.size, length_place]
                rw [hsize] at hss hadded'
                simp only [hrest, Except.map, Prod.mk.injEq, Except.ok.injEq] at h
                obtain ⟨rfl, rfl⟩ := h
                exact ⟨by rw [slots, hs, hss], hadded.append hadded'⟩

end

mutual

/-- However adding an entry ends, it appends childless declarations. -/
theorem add_grows (space : String) (l : Loading) (entry : Fragment) :
    ∃ heads : List Head, (add space l entry).1.arena.nodes.toList =
      l.arena.nodes.toList ++ heads.map (·.declaration space) := by
  cases entry with
  | link anchor => exact ⟨[], by simp [add]⟩
  | declaration head children =>
      cases hname : (l.alloc space head).2.name ⟨l.arena.size⟩ head with
      | mk l₁ fault =>
          have hnodes : l₁.arena.nodes.toList =
              l.arena.nodes.toList ++ [head.declaration space] := by
            rw [(arena_name hname).1]
            exact Array.toList_push
          have hname' : (l.alloc space head).2.name (l.alloc space head).1 head = (l₁, fault) := hname
          simp only [add, hname']
          cases fault with
          | some defect => exact ⟨[head], hnodes⟩
          | none =>
              obtain ⟨heads, hheads⟩ := addAll_grows space l₁ children
              have hboth : (addAll space l₁ children).1.arena.nodes.toList =
                  l.arena.nodes.toList ++ (head :: heads).map (·.declaration space) := by
                rw [hheads, hnodes, List.append_assoc]
                rfl
              refine ⟨head :: heads, ?_⟩
              rw [← hboth]
              cases hall : addAll space l₁ children with
              | mk l₂ outcome =>
                  cases outcome with
                  | error defect => simp only [hall]
                  | ok ss =>
                      simp only [hall]
                      rfl

/-- Adding entries only appends declarations. -/
theorem addAll_grows (space : String) (l : Loading) (entries : List Fragment) :
    ∃ heads : List Head, (addAll space l entries).1.arena.nodes.toList =
      l.arena.nodes.toList ++ heads.map (·.declaration space) := by
  cases entries with
  | nil => exact ⟨[], by simp [addAll]⟩
  | cons entry rest =>
      obtain ⟨heads, hheads⟩ := add_grows space l entry
      rw [addAll]
      split
      · next l₁ defect hfirst =>
        rw [hfirst] at hheads
        exact ⟨heads, hheads⟩
      · next l₁ s hfirst =>
        rw [hfirst] at hheads
        obtain ⟨more, hmore⟩ := addAll_grows space l₁ rest
        refine ⟨heads ++ more, ?_⟩
        rw [List.map_append, ← List.append_assoc, ← hheads, ← hmore]

end

end Loading

end Fragment

end SchemaCatalog
