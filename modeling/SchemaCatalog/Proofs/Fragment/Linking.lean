import Mathlib.Data.List.Forall2
import Mathlib.Data.List.Nodup
import SchemaCatalog.Proofs.Fragment.Layout

/-!
# SchemaCatalog.Proofs.Fragment.Linking

The second pass of the loader, and with it the whole of loading a document.
Once all anchors are known, the children of every declaration are set from its
slots (`connect_eq_ok`).  Two things follow.

* However loading ends, the arena has been *annexed to* (`Arena.Annexed`): what
  was there is untouched, and what is new is not flagged and has its children
  among the new (`annexed_load`).
* If loading succeeds, every declaration of the document stands at its place
  with the children that its entry lists (`loaded_of_load`), and the root
  leads to all of them (`reaches_of_load`).
-/

namespace SchemaCatalog

open Relation (ReflTransGen)

namespace Fragment

/-! ## children from slots -/

/-- The child that a slot is. -/
def Slot.Fills (anchors : Table String NodeId) : Slot → NodeId → Prop
  | .node id, c => c = id
  | .link anchor, c => anchors.get? anchor = some c

namespace Loading

/-- In lists that are related one by one, everything has a counterpart. -/
theorem exists_counterpart {α β : Type} {R : α → β → Prop} {xs : List α} {ys : List β}
    (h : List.Forall₂ R xs ys) {x : α} (hx : x ∈ xs) : ∃ y ∈ ys, R x y := by
  induction h with
  | nil => contradiction
  | cons hfirst _ ih =>
      rcases List.mem_cons.mp hx with rfl | hx
      · exact ⟨_, List.mem_cons_self, hfirst⟩
      · obtain ⟨y, hmem, hy⟩ := ih hx
        exact ⟨y, List.mem_cons_of_mem _ hmem, hy⟩

/-- What settling slots comes to: every slot gets its child, or there is a link
to an anchor that nothing carries. -/
def Settled (anchors : Table String NodeId) (slots : List Slot) :
    Except FragmentDefect (List NodeId) → Prop
  | .ok children => List.Forall₂ (Slot.Fills anchors) slots children
  | .error defect => ∃ x, defect = .unknownAnchor x ∧ Slot.link x ∈ slots ∧
      anchors.contains x = false

/-- Settling fills each slot or names an anchor that is unknown. -/
theorem settled_settle (anchors : Table String NodeId) (slots : List Slot) :
    Settled anchors slots (settle anchors slots) := by
  induction slots with
  | nil => exact .nil
  | cons slot slots ih =>
      -- if the first slot gets its child, it is for the others to decide
      have shift : ∀ id, slot.Fills anchors id →
          Settled anchors (slot :: slots) ((settle anchors slots).map (id :: ·)) := by
        intro id hid
        cases hsettle : settle anchors slots with
        | ok children =>
            rw [hsettle] at ih
            exact .cons hid ih
        | error defect =>
            rw [hsettle] at ih
            obtain ⟨x, hdefect, hmem, hunknown⟩ := ih
            exact ⟨x, hdefect, List.mem_cons_of_mem _ hmem, hunknown⟩
      cases slot with
      | node id => exact shift id rfl
      | link anchor =>
          rw [settle]
          cases hanchor : anchors.get? anchor with
          | some id => exact shift id hanchor
          | none => exact ⟨anchor, rfl, List.mem_cons_self, by simp [Table.contains, hanchor]⟩

/-- Slots that settle are filled, each by its own node. -/
theorem settle_eq_ok {anchors : Table String NodeId} {slots : List Slot} {children : List NodeId}
    (h : settle anchors slots = .ok children) :
    List.Forall₂ (Slot.Fills anchors) slots children := by
  have hsettled := settled_settle anchors slots
  rwa [h] at hsettled

/-- Slots that do not settle have a link to an unknown anchor. -/
theorem settle_eq_error {anchors : Table String NodeId} {slots : List Slot}
    {defect : FragmentDefect} (h : settle anchors slots = .error defect) :
    ∃ x, defect = .unknownAnchor x ∧ Slot.link x ∈ slots ∧ anchors.contains x = false := by
  have hsettled := settled_settle anchors slots
  rwa [h] at hsettled

/-! ## setting children -/

/-- However setting children ends, a declaration has kept its children or got
those of its slots; nothing else about it has changed. -/
theorem connect_cases (anchors : Table String NodeId) (a : Arena) (ws : List (NodeId × List Slot))
    {id : NodeId} {d' : Declaration} (h : (connect anchors a ws).1.get? id = some d') :
    ∃ d, a.get? id = some d ∧ (d' = d ∨ ∃ slots children, (id, slots) ∈ ws ∧
      settle anchors slots = .ok children ∧ d' = { d with children }) := by
  induction ws generalizing a with
  | nil => exact ⟨d', h, .inl rfl⟩
  | cons w ws ih =>
      obtain ⟨q, slots⟩ := w
      cases hsettle : settle anchors slots with
      | error defect =>
          simp only [connect, hsettle] at h
          exact ⟨d', h, .inl rfl⟩
      | ok children =>
          simp only [connect, hsettle] at h
          obtain ⟨d₁, hd₁, hcases⟩ := ih _ h
          rw [Arena.get?_modify] at hd₁
          by_cases hq : id = q
          · subst hq
            rw [if_pos rfl] at hd₁
            obtain ⟨d, hd, rfl⟩ := Option.map_eq_some_iff.mp hd₁
            refine ⟨d, hd, .inr ?_⟩
            rcases hcases with rfl | ⟨slots', children', hmem, hsettle', rfl⟩
            · exact ⟨slots, children, List.mem_cons_self, hsettle, rfl⟩
            · exact ⟨slots', children', List.mem_cons_of_mem _ hmem, hsettle', rfl⟩
          · rw [if_neg hq] at hd₁
            refine ⟨d₁, hd₁, hcases.imp_right ?_⟩
            rintro ⟨slots', children', hmem, hsettle', rfl⟩
            exact ⟨slots', children', List.mem_cons_of_mem _ hmem, hsettle', rfl⟩

/-- Connecting changes the waiting nodes only. -/
theorem frame_connect (anchors : Table String NodeId) (a : Arena) (ws : List (NodeId × List Slot)) :
    (connect anchors a ws).1.size = a.size ∧
      ∀ id, id ∉ ws.map (·.1) → (connect anchors a ws).1.get? id = a.get? id := by
  induction ws generalizing a with
  | nil => exact ⟨rfl, fun _ _ => rfl⟩
  | cons w ws ih =>
      obtain ⟨q, slots⟩ := w
      cases hsettle : settle anchors slots with
      | error defect => simp [connect, hsettle]
      | ok children =>
          obtain ⟨hsize, hframe⟩ := ih (a.modify q fun d => { d with children })
          simp only [connect, hsettle]
          refine ⟨hsize.trans (Arena.size_modify _ _ _), fun id hid => ?_⟩
          rw [List.map_cons, List.mem_cons, not_or] at hid
          rw [hframe id hid.2, Arena.get?_modify, if_neg hid.1]

/-- **Setting children** that succeeds gives each declaration those of its slots. -/
theorem connect_eq_ok {anchors : Table String NodeId} {a b : Arena}
    {ws : List (NodeId × List Slot)} (h : connect anchors a ws = (b, none))
    (hnodup : (ws.map (·.1)).Nodup) {id : NodeId} {slots : List Slot} (hmem : (id, slots) ∈ ws) :
    ∃ children, settle anchors slots = .ok children ∧
      b.get? id = (a.get? id).map fun d => { d with children } := by
  induction ws generalizing a with
  | nil => contradiction
  | cons w ws ih =>
      obtain ⟨q, slots'⟩ := w
      rw [List.map_cons, List.nodup_cons] at hnodup
      cases hsettle : settle anchors slots' with
      | error defect => simp [connect, hsettle] at h
      | ok children =>
          simp only [connect, hsettle] at h
          rcases List.mem_cons.mp hmem with heq | hrest
          · obtain ⟨rfl, rfl⟩ := Prod.mk.inj heq
            refine ⟨children, hsettle, ?_⟩
            have hframe := (frame_connect anchors (a.modify id fun d => { d with children }) ws).2
            rw [h] at hframe
            rw [hframe id hnodup.1, Arena.get?_modify, if_pos rfl]
          · obtain ⟨children', hsettle', hb⟩ := ih h hnodup.2 hrest
            have hne : id ≠ q := by
              rintro rfl
              exact hnodup.1 (List.mem_map.mpr ⟨_, hrest, rfl⟩)
            exact ⟨children', hsettle', by rw [hb, Arena.get?_modify, if_neg hne]⟩

end Loading

/-! ## slots and anchors stay inside -/

/-- The slots of entries hold ids of their own stretch of the arena. -/
theorem mem_slots_node {n : Nat} {entries : List Fragment} {id : NodeId}
    (h : Slot.node id ∈ slots n entries) : n ≤ id.index ∧ id.index < n + sizeAll entries := by
  induction entries generalizing n with
  | nil => contradiction
  | cons entry rest ih =>
      rw [slots] at h
      rw [sizeAll]
      rcases List.mem_cons.mp h with h | h
      · cases entry with
        | link anchor => contradiction
        | declaration head children =>
            obtain rfl : id = ⟨n⟩ := Slot.node.inj h
            rw [size]
            exact ⟨Nat.le_refl n, by simp only; omega⟩
      · obtain ⟨hlow, hhigh⟩ := ih h
        omega

mutual

/-- The slots of a place hold ids of the stretch of its entry. -/
theorem slots_of_mem_place {n : Nat} {entry : Fragment} {p : Placed} (hp : p ∈ place n entry)
    {id : NodeId} (h : Slot.node id ∈ p.slots) : n ≤ id.index ∧ id.index < n + size entry := by
  cases entry with
  | link anchor => contradiction
  | declaration head children =>
      rw [place] at hp
      rw [size]
      rcases List.mem_cons.mp hp with rfl | hp
      · obtain ⟨hlow, hhigh⟩ := mem_slots_node h
        omega
      · obtain ⟨hlow, hhigh⟩ := slots_of_mem_placeAll hp h
        omega

/-- The slots of a place hold ids of the stretch of its entries. -/
theorem slots_of_mem_placeAll {n : Nat} {entries : List Fragment} {p : Placed}
    (hp : p ∈ placeAll n entries) {id : NodeId} (h : Slot.node id ∈ p.slots) :
    n ≤ id.index ∧ id.index < n + sizeAll entries := by
  cases entries with
  | nil => contradiction
  | cons entry rest =>
      rw [placeAll] at hp
      rw [sizeAll]
      rcases List.mem_append.mp hp with hp | hp
      · obtain ⟨hlow, hhigh⟩ := slots_of_mem_place hp h
        omega
      · obtain ⟨hlow, hhigh⟩ := slots_of_mem_placeAll hp h
        omega

end

/-- The ids of placed entries are those of their range, each once. -/
theorem mem_place_iff {n : Nat} {entry : Fragment} {id : NodeId} :
    (∃ p ∈ place n entry, p.id = id) ↔ n ≤ id.index ∧ id.index < n + size entry := by
  have hids := ids_place n entry
  rw [← List.mem_range'_1, ← hids, List.mem_map]
  constructor
  · rintro ⟨p, hp, rfl⟩
    exact ⟨p, hp, rfl⟩
  · rintro ⟨p, hp, hindex⟩
    refine ⟨p, hp, ?_⟩
    cases hid : p.id
    cases id
    rw [hid] at hindex
    exact congrArg NodeId.mk hindex

/-- The places of an entry are listed by their ids. -/
theorem index_of_getElem?_place {n i : Nat} {entry : Fragment} {p : Placed}
    (h : (place n entry)[i]? = some p) : p.id.index = n + i := by
  have hindex : ((place n entry).map (·.id.index))[i]? = some p.id.index := by
    rw [List.getElem?_map, h, Option.map_some]
  rw [ids_place] at hindex
  obtain ⟨hlt, heq⟩ := List.getElem?_eq_some_iff.mp hindex
  simpa using heq.symm

/-- A declaration stands at its place after the first pass. -/
theorem Loading.Added.get?_of_mem {space : String} {l l' : Loading} {entry : Fragment}
    (h : Loading.Added space l (place l.arena.size entry) l') {p : Placed}
    (hp : p ∈ place l.arena.size entry) :
    l'.arena.get? p.id = some (p.head.declaration space) := by
  obtain ⟨i, hi, rfl⟩ := List.getElem_of_mem hp
  have hsome := List.getElem?_eq_getElem hi
  have hindex := index_of_getElem?_place hsome
  have hlength : l.arena.nodes.toList.length = l.arena.size := rfl
  rw [Arena.get?, ← Array.getElem?_toList, h.nodes, hindex,
    List.getElem?_append_right (by omega), hlength, Nat.add_sub_cancel_left, List.getElem?_map,
    hsome, Option.map_some]

/-- No id is placed twice. -/
theorem nodup_place (n : Nat) (entry : Fragment) : ((place n entry).map (·.id)).Nodup := by
  have hids : ((place n entry).map (·.id)).map NodeId.index = List.range' n (size entry) := by
    rw [List.map_map, ← ids_place]
    rfl
  exact List.Nodup.of_map NodeId.index (hids ▸ List.nodup_range')

end Fragment

/-- Whatever can be looked up has been inserted or was there. -/
theorem Table.mem_of_get?_foldl_insert {entries : List (String × NodeId)}
    {t : Table String NodeId} {key : String} {id : NodeId}
    (h : (entries.foldl (fun t e => t.insert e.1 e.2) t).get? key = some id) :
    (key, id) ∈ entries ∨ t.get? key = some id := by
  induction entries generalizing t with
  | nil => exact .inr h
  | cons e entries ih =>
      rcases ih h with hmem | hget
      · exact .inl (List.mem_cons_of_mem _ hmem)
      · by_cases hkey : key = e.1
        · rw [hkey, Table.get?_insert_self, Option.some.injEq] at hget
          rw [hkey, ← hget]
          exact .inl List.mem_cons_self
        · rw [Table.get?_insert_of_ne _ _ hkey] at hget
          exact .inr hget

/-! ## loading a document -/

namespace Document

open Fragment Fragment.Loading

def entry (d : Document) : Fragment := .declaration d.head d.children

/-- The anchors of a document whose declarations stand from place `n` on. -/
def anchorsFrom (d : Document) (n : Nat) : Table String NodeId :=
  .ofList (anchored (place n d.entry))

/-- The document stands in `b` behind the declarations of `a`. -/
structure Loaded (d : Document) (a b : Arena) : Prop where
  size : b.size = a.size + d.entry.size
  placed : ∀ p ∈ place a.size d.entry, ∃ children,
    List.Forall₂ (Slot.Fills (d.anchorsFrom a.size)) p.slots children ∧
      b.get? p.id = some { p.head.declaration d.space with children }

/-- What a slot of the document is filled with stands in the document. -/
theorem fills_inside {d : Document} {n : Nat} {p : Placed} (hp : p ∈ place n d.entry) {slot : Slot}
    (hslot : slot ∈ p.slots) {c : NodeId} (hc : slot.Fills (d.anchorsFrom n) c) :
    n ≤ c.index ∧ c.index < n + d.entry.size := by
  cases slot with
  | node id =>
      obtain rfl : c = id := hc
      exact slots_of_mem_place hp hslot
  | link anchor =>
      have hmem : (anchor, c) ∈ anchored (place n d.entry) :=
        (Table.mem_of_get?_foldl_insert hc).resolve_right (by simp)
      obtain ⟨q, hq, hanchor⟩ := List.mem_filterMap.mp hmem
      obtain ⟨name, -, heq⟩ := Option.map_eq_some_iff.mp hanchor
      exact mem_place_iff.mp ⟨q, hq, (Prod.mk.inj heq).2⟩

section

variable {d : Document} {a : Arena} {l : Loading} {s : Slot}

/-- What the first pass leaves for the second. -/
theorem added_of_add (h : add d.space { arena := a } d.entry = (l, .ok s)) :
    Added d.space { arena := a } (place a.size d.entry) l ∧ l.anchors = d.anchorsFrom a.size ∧
      ∀ id slots, (id, slots) ∈ l.waiting.reverse ↔
        ∃ p ∈ place a.size d.entry, p.id = id ∧ p.slots = slots := by
  obtain ⟨-, hadded⟩ := add_eq_ok h
  refine ⟨hadded, hadded.anchors, fun id slots => ?_⟩
  have hwaiting : l.waiting.Perm ((place a.size d.entry).map fun p => (p.id, p.slots)) := by
    have hperm := hadded.waiting
    rwa [List.append_nil] at hperm
  rw [List.mem_reverse, hwaiting.mem_iff, List.mem_map]
  simp only [Prod.mk.injEq]

/-- No node waits for its children twice. -/
theorem nodup_waiting (h : add d.space { arena := a } d.entry = (l, .ok s)) :
    (l.waiting.reverse.map (·.1)).Nodup := by
  have hperm := (add_eq_ok h).2.waiting
  rw [List.append_nil] at hperm
  have hids := hperm.map Prod.fst
  rw [List.map_map] at hids
  rw [List.map_reverse, List.nodup_reverse]
  exact hids.nodup_iff.mpr (nodup_place a.size d.entry)

/-- Whatever the second pass sets stays inside the document. -/
theorem annexed_connect (h : add d.space { arena := a } d.entry = (l, .ok s)) :
    Arena.Annexed a (connect l.anchors l.arena l.waiting.reverse).1 := by
  obtain ⟨hadded, hanchors, hwaiting⟩ := added_of_add h
  obtain ⟨hsize, hframe⟩ := frame_connect l.anchors l.arena l.waiting.reverse
  have hfirst : Arena.Annexed a l.arena := by
    refine Arena.annexed_of_append hadded.nodes ?_
    intro e he
    obtain ⟨p, -, rfl⟩ := List.mem_map.mp he
    exact ⟨rfl, rfl⟩
  constructor
  · intro id e he
    have hid : id ∉ l.waiting.reverse.map (·.1) := by
      intro hmem
      obtain ⟨⟨q, slots⟩, hw, rfl⟩ := List.mem_map.mp hmem
      obtain ⟨p, hp, hpq, -⟩ := (hwaiting q slots).mp hw
      have hlow := (mem_place_iff.mp ⟨p, hp, hpq⟩).1
      exact absurd (Arena.get?_eq_some_lt he) (Nat.not_lt.mpr hlow)
    rw [hframe id hid]
    exact hfirst.grown id e he
  · intro id e hid he
    obtain ⟨e₀, he₀, hcases⟩ := connect_cases l.anchors l.arena l.waiting.reverse he
    have hflag := hfirst.fresh id e₀ hid he₀
    rcases hcases with rfl | ⟨slots, children, -, -, rfl⟩
    · exact hflag
    · exact hflag
  · rintro p c hp ⟨e, he, hc⟩
    obtain ⟨e₀, he₀, hcases⟩ := connect_cases l.anchors l.arena l.waiting.reverse he
    rcases hcases with rfl | ⟨slots, children, hw, hsettle, rfl⟩
    · have hedge := hfirst.inner p c hp ⟨e, he₀, hc⟩
      exact ⟨hedge.1, by rw [Arena.Valid, hsize]; exact hedge.2⟩
    · obtain ⟨q, hq, rfl, rfl⟩ := (hwaiting p slots).mp hw
      have hflip : List.Forall₂ (flip (Slot.Fills l.anchors)) children q.slots :=
        List.Forall₂.flip (settle_eq_ok hsettle)
      obtain ⟨slot, hslot, hfills⟩ := exists_counterpart hflip hc
      rw [flip, hanchors] at hfills
      obtain ⟨hlow, hhigh⟩ := fills_inside hq hslot hfills
      refine ⟨Nat.not_lt.mpr hlow, ?_⟩
      rw [Arena.Valid, hsize, hadded.size, length_place]
      exact hhigh

end

/-- **Loading a document**, well or not, annexes to the arena. -/
theorem annexed_load (d : Document) (a : Arena) : Arena.Annexed a (d.load a).1 := by
  obtain ⟨heads, hheads⟩ := add_grows d.space { arena := a } d.entry
  cases hadd : add d.space { arena := a } d.entry with
  | mk l outcome =>
      have hadd' : add d.space { arena := a } (.declaration d.head d.children) = (l, outcome) := hadd
      simp only [Document.load, hadd']
      cases outcome with
      | error defect =>
          rw [hadd] at hheads
          refine Arena.annexed_of_append hheads ?_
          intro e he
          obtain ⟨head, -, rfl⟩ := List.mem_map.mp he
          exact ⟨rfl, rfl⟩
      | ok slot =>
          have hannexed := annexed_connect hadd
          cases hconnect : connect l.anchors l.arena l.waiting.reverse with
          | mk b defect =>
              rw [hconnect] at hannexed
              cases defect with
              | none => simpa only [hconnect] using hannexed
              | some defect => simpa only [hconnect] using hannexed

/-- **A loaded document** stands in the arena as it is written. -/
theorem loaded_of_load {d : Document} {a b : Arena} {root : NodeId} (h : d.load a = (b, .ok root)) :
    root = ⟨a.size⟩ ∧ d.Loaded a b := by
  rw [Document.load] at h
  split at h
  · simp at h
  · next l slot hadd =>
    obtain ⟨hadded, hanchors, hwaiting⟩ := added_of_add hadd
    obtain ⟨hsize, -⟩ := frame_connect l.anchors l.arena l.waiting.reverse
    split at h
    · simp at h
    · next b' hconnect =>
      simp only [Prod.mk.injEq, Except.ok.injEq] at h
      obtain ⟨rfl, rfl⟩ := h
      refine ⟨rfl, ?_, ?_⟩
      · rw [hconnect] at hsize
        rw [hsize, hadded.size, length_place]
      · intro p hp
        obtain ⟨children, hsettle, hget⟩ := connect_eq_ok hconnect (nodup_waiting hadd)
          ((hwaiting p.id p.slots).mpr ⟨p, hp, rfl, rfl⟩)
        refine ⟨children, hanchors ▸ settle_eq_ok hsettle, ?_⟩
        rw [hget, hadded.get?_of_mem hp, Option.map_some]

/-- **The root leads to everything** that its document declares. -/
theorem reaches_of_load {d : Document} {a b : Arena} {root : NodeId}
    (h : d.load a = (b, .ok root)) {id : NodeId} (hnew : ¬ a.Valid id) (hid : b.Valid id) :
    ReflTransGen b.Edge root id := by
  obtain ⟨rfl, hloaded⟩ := loaded_of_load h
  have hR : ∀ p ∈ place a.size d.entry, ∀ id, Slot.node id ∈ p.slots → b.Edge p.id id := by
    intro p hp id hslot
    obtain ⟨children, hfills, hget⟩ := hloaded.placed p hp
    obtain ⟨c, hc, rfl⟩ := exists_counterpart hfills hslot
    exact ⟨_, hget, hc⟩
  have hrange : a.size ≤ id.index ∧ id.index < a.size + d.entry.size := by
    rw [← hloaded.size]
    exact ⟨Nat.le_of_not_lt hnew, hid⟩
  obtain ⟨p, hp, rfl⟩ := mem_place_iff.mpr hrange
  exact reaches_place hR p hp

end Document

namespace Arena

/-- Loading a text annexes to the arena, whatever comes of it. -/
theorem annexed_load (a : Arena) (text : String) : Annexed a (a.load text).1 := by
  rw [load]
  split
  · exact .refl a
  · next d hd =>
    have hannexed := Document.annexed_load d a
    split
    · next b defect hload =>
      rw [hload] at hannexed
      exact hannexed
    · next b root hload =>
      rw [hload] at hannexed
      exact hannexed

/-- A text that loads is that of a document that does. -/
theorem exists_document_of_load {a b : Arena} {text : String} {root : NodeId}
    (h : a.load text = (b, .ok root)) :
    ∃ d, Document.ofText text = .ok d ∧ d.load a = (b, .ok root) := by
  rw [load] at h
  split at h
  · simp at h
  · next d hd =>
    split at h
    · simp at h
    · next b' root' hload =>
      simp only [Prod.mk.injEq, Except.ok.injEq] at h
      obtain ⟨rfl, rfl⟩ := h
      exact ⟨d, hd, hload⟩

end Arena

end SchemaCatalog
