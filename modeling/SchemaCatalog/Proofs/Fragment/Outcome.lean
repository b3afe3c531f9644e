import Mathlib.Data.List.Duplicate
import SchemaCatalog.Proofs.Fragment.Linking

/-!
# SchemaCatalog.Proofs.Fragment.Outcome

Which documents load, what is wrong with the others, and what a document that
loads looks like in the arena.

The first pass meets the anchors in pre-order and stops at the first one that
it has met before (`told_add`).  The second pass meets every link of the
document, by way of the slots (`mem_links_iff`), and stops at the first one
whose anchor no declaration carries.  So a document loads if and only if its
anchors are distinct and its links name some of them, and a repeated anchor is
reported whether or not a link is astray (`load_exact`).

What stands in the arena afterwards is the tree itself, read along its entries
(`Stands`): declarations where the entries are declarations, and the carriers
of the anchors where they are links.
-/

namespace SchemaCatalog

namespace Fragment

/-! ## anchors and links of an entry -/

mutual

/-- The anchors that the declarations of an entry carry, in pre-order. -/
def anchors : Fragment → List String
  | .link _ => []
  | .declaration head children => head.anchor.toList ++ anchorsAll children

def anchorsAll : List Fragment → List String
  | [] => []
  | entry :: rest => anchors entry ++ anchorsAll rest

end

mutual

/-- The anchors that the links of an entry name. -/
def links : Fragment → List String
  | .link anchor => [anchor]
  | .declaration _ children => linksAll children

def linksAll : List Fragment → List String
  | [] => []
  | entry :: rest => links entry ++ linksAll rest

end

mutual

/-- The links of an entry are what its slots, and the slots below it, ask for. -/
theorem mem_links_iff {x : String} (n : Nat) (entry : Fragment) :
    x ∈ links entry ↔
      slot n entry = .link x ∨ ∃ p ∈ place n entry, Slot.link x ∈ p.slots := by
  cases entry with
  | link anchor => simp [links, slot, place, eq_comm]
  | declaration head children =>
      simp [links, slot, place, mem_linksAll_iff (n + 1) children]

/-- The links of entries are those of their own slots and of the slots below. -/
theorem mem_linksAll_iff {x : String} (n : Nat) (entries : List Fragment) :
    x ∈ linksAll entries ↔
      Slot.link x ∈ slots n entries ∨ ∃ p ∈ placeAll n entries, Slot.link x ∈ p.slots := by
  cases entries with
  | nil => simp [linksAll, slots, placeAll]
  | cons entry rest =>
      have hfirst := mem_links_iff (x := x) n entry
      have hrest := mem_linksAll_iff (x := x) (n + size entry) rest
      simp only [linksAll, slots, placeAll, List.mem_append, List.mem_cons, hfirst, hrest,
        or_and_right, exists_or, @eq_comm _ (Slot.link x)]
      rw [or_or_or_comm]

end

namespace Loading

/-! ## the anchors that the first pass meets -/

/-- The anchors that have a carrier are those that have been met. -/
def Knows (l : Loading) (met : List String) : Prop :=
  ∀ x, l.anchors.contains x = true ↔ x ∈ met

/-- What the first pass says once it has met some anchors: it knows them and
they are distinct, or it complains about one that it has met twice. -/
def Told {α : Type} (met : List String) : Loading × Except FragmentDefect α → Prop
  | (l, .ok _) => l.Knows met ∧ met.Nodup
  | (_, .error defect) => ∃ x, defect = .duplicateAnchor x ∧ met.Duplicate x

/-- An anchor that is met twice has been met twice for good. -/
theorem Told.error {α : Type} {met more : List String} {l : Loading} {defect : FragmentDefect}
    (h : ∃ x, defect = .duplicateAnchor x ∧ met.Duplicate x) :
    Told (α := α) (met ++ more) (l, .error defect) := by
  obtain ⟨x, hdefect, hdup⟩ := h
  exact ⟨x, hdefect, hdup.mono_sublist (List.sublist_append_left met more)⟩

/-- Naming a declaration meets the anchor of its entry. -/
theorem name_cases {l : Loading} {met : List String} (hknows : l.Knows met) (hnodup : met.Nodup)
    (id : NodeId) (head : Head) :
    (∃ l', l.name id head = (l', none) ∧ l'.Knows (met ++ head.anchor.toList) ∧
      (met ++ head.anchor.toList).Nodup) ∨
    ∃ l' x, l.name id head = (l', some (.duplicateAnchor x)) ∧
      (met ++ head.anchor.toList).Duplicate x := by
  cases hanchor : head.anchor with
  | none =>
      refine .inl ⟨l, by simp [name, hanchor], ?_⟩
      simpa using ⟨hknows, hnodup⟩
  | some x =>
      by_cases hmet : x ∈ met
      · have hcontains : l.anchors.contains x = true := (hknows x).mpr hmet
        refine .inr ⟨l, x, by simp [name, hanchor, hcontains], ?_⟩
        have htwice : 2 ≤ (met ++ [x]).count x := by
          have hone := List.one_le_count_iff.mpr hmet
          simp only [List.count_append, List.count_singleton_self]
          omega
        exact List.duplicate_iff_two_le_count.mpr htwice
      · have hcontains : l.anchors.contains x = false := by
          rw [← Bool.not_eq_true, hknows]
          exact hmet
        have hname : l.name id head = ({ l with anchors := l.anchors.insert x id }, none) := by
          simp [name, hanchor, hcontains]
        refine .inl ⟨_, hname, ?_, ?_⟩
        · intro y
          have hy := hknows y
          by_cases hyx : y = x
          · simp [hyx, Table.contains]
          · simpa [Table.contains, Table.get?_insert_of_ne _ _ hyx, hyx] using hy
        · simpa [List.nodup_append] using ⟨hnodup, fun y hy hyx => hmet (hyx ▸ hy)⟩

mutual

/-- **The first pass** over an entry meets its anchors. -/
theorem told_add (space : String) {l : Loading} {met : List String} (hknows : l.Knows met)
    (hnodup : met.Nodup) (entry : Fragment) :
    Told (met ++ entry.anchors) (add space l entry) := by
  cases entry with
  | link anchor => simpa [add, Fragment.anchors, Told] using ⟨hknows, hnodup⟩
  | declaration head children =>
      rw [add, Fragment.anchors, ← List.append_assoc]
      have hknows' : (l.alloc space head).2.Knows met := hknows
      obtain hnamed | hnamed := name_cases hknows' hnodup (l.alloc space head).1 head
      · obtain ⟨l₁, hname, hknows₁, hnodup₁⟩ := hnamed
        have hall := told_addAll space hknows₁ hnodup₁ children
        simp only [hname]
        cases hrun : addAll space l₁ children with
        | mk l₂ outcome =>
            rw [hrun] at hall
            cases outcome with
            | error defect => exact hall
            | ok ss => exact hall
      · obtain ⟨l₁, x, hname, hdup⟩ := hnamed
        simp only [hname]
        exact .error ⟨x, rfl, hdup⟩

/-- Adding entries meets each anchor once, or reports one that is met twice. -/
theorem told_addAll (space : String) {l : Loading} {met : List String} (hknows : l.Knows met)
    (hnodup : met.Nodup) (entries : List Fragment) :
    Told (met ++ anchorsAll entries) (addAll space l entries) := by
  cases entries with
  | nil => simpa [addAll, anchorsAll, Told] using ⟨hknows, hnodup⟩
  | cons entry rest =>
      rw [addAll, anchorsAll, ← List.append_assoc]
      have hfirst := told_add space hknows hnodup entry
      cases hrun : add space l entry with
      | mk l₁ outcome =>
          rw [hrun] at hfirst
          cases outcome with
          | error defect => exact .error hfirst
          | ok s =>
              have hrest := told_addAll space hfirst.1 hfirst.2 rest
              cases hrun' : addAll space l₁ rest with
              | mk l₂ outcome' =>
                  rw [hrun'] at hrest
                  simp only [hrun']
                  cases outcome' with
                  | error defect => exact hrest
                  | ok ss => exact hrest

end

/-! ## the links that the second pass meets -/

/-- If connecting fails, then a waiting node has a link to an unknown anchor. -/
theorem connect_eq_error {anchors : Table String NodeId} {a b : Arena}
    {ws : List (NodeId × List Slot)} {defect : FragmentDefect}
    (h : connect anchors a ws = (b, some defect)) :
    ∃ x, defect = .unknownAnchor x ∧ (∃ w ∈ ws, Slot.link x ∈ w.2) ∧
      anchors.contains x = false := by
  induction ws generalizing a with
  | nil => simp [connect] at h
  | cons w ws ih =>
      obtain ⟨id, slots⟩ := w
      cases hsettle : settle anchors slots with
      | error defect' =>
          simp only [connect, hsettle, Prod.mk.injEq, Option.some.injEq] at h
          obtain ⟨x, hdefect, hmem, hunknown⟩ := settle_eq_error hsettle
          exact ⟨x, h.2 ▸ hdefect, ⟨_, List.mem_cons_self, hmem⟩, hunknown⟩
      | ok children =>
          simp only [connect, hsettle] at h
          obtain ⟨x, hdefect, ⟨w, hw, hmem⟩, hunknown⟩ := ih h
          exact ⟨x, hdefect, ⟨w, List.mem_cons_of_mem _ hw, hmem⟩, hunknown⟩

end Loading

/-! ## a tree in the arena -/

mutual

/-- An entry stands in `b`, its declarations from place `n` on in pre-order,
and `id` is the child that it is: a link is the carrier of its anchor, a
declaration is the node at place `n`. -/
def Stands (space : String) (carriers : List (String × NodeId)) (b : Arena) (n : Nat) :
    Fragment → NodeId → Prop
  | .link anchor, id => (anchor, id) ∈ carriers
  | .declaration head entries, id =>
    id = ⟨n⟩ ∧ ∃ children : List NodeId,
      b.get? id = some
        { kind := .ofTag head.tag
          name := head.name <|> head.attributes.get? "name"
          space := head.space.getD space
          attributes := head.attributes
          children
          processed := false } ∧
      StandAll space carriers b (n + 1) entries children

/-- Entries stand in `b` one behind the other, and they are the given children
one by one. -/
def StandAll (space : String) (carriers : List (String × NodeId)) (b : Arena) (n : Nat) :
    List Fragment → List NodeId → Prop
  | [], children => children = []
  | entry :: rest, children => ∃ child others, children = child :: others ∧
      Stands space carriers b n entry child ∧
      StandAll space carriers b (n + size entry) rest others

end

section

variable {space : String} {anchors : Table String NodeId} {carriers : List (String × NodeId)}
  {b : Arena}

mutual

/-- Placed entries that have got their children stand as a tree. -/
theorem stands_of_placed (hcarriers : ∀ x id, anchors.get? x = some id → (x, id) ∈ carriers)
    {n : Nat} {entry : Fragment}
    (hplaced : ∀ p ∈ place n entry, ∃ children, List.Forall₂ (Slot.Fills anchors) p.slots children ∧
      b.get? p.id = some { p.head.declaration space with children })
    {id : NodeId} (hid : (slot n entry).Fills anchors id) :
    Stands space carriers b n entry id := by
  cases entry with
  | link anchor => exact hcarriers anchor id hid
  | declaration head entries =>
      rw [place, List.forall_mem_cons] at hplaced
      obtain ⟨⟨children, hfills, hget⟩, hbelow⟩ := hplaced
      simp only [Head.declaration] at hget
      obtain rfl : id = ⟨n⟩ := hid
      rw [Stands]
      exact ⟨rfl, children, hget, standAll_of_placed hcarriers hbelow hfills⟩

/-- Places whose children fill their slots stand in the arena as their entries say. -/
theorem standAll_of_placed (hcarriers : ∀ x id, anchors.get? x = some id → (x, id) ∈ carriers)
    {n : Nat} {entries : List Fragment}
    (hplaced : ∀ p ∈ placeAll n entries, ∃ children,
      List.Forall₂ (Slot.Fills anchors) p.slots children ∧
        b.get? p.id = some { p.head.declaration space with children })
    {ids : List NodeId} (hids : List.Forall₂ (Slot.Fills anchors) (slots n entries) ids) :
    StandAll space carriers b n entries ids := by
  cases entries with
  | nil =>
      rw [slots, List.forall₂_nil_left_iff] at hids
      exact hids
  | cons entry rest =>
      rw [placeAll, List.forall_mem_append] at hplaced
      rw [slots, List.forall₂_cons_left_iff] at hids
      obtain ⟨child, others, hchild, hothers, rfl⟩ := hids
      rw [StandAll]
      exact ⟨child, others, rfl, stands_of_placed hcarriers hplaced.1 hchild,
        standAll_of_placed hcarriers hplaced.2 hothers⟩

end

end

end Fragment

/-! ## loading a document -/

namespace Document

open Fragment Fragment.Loading

/-- The anchors of a document are distinct, and its links name some of them. -/
def Linked (d : Document) : Prop :=
  d.entry.anchors.Nodup ∧ ∀ x ∈ d.entry.links, x ∈ d.entry.anchors

/-- What is wrong with a document: an anchor that is carried twice or, if there
is none, a link to an anchor that is not carried at all. -/
inductive Broken (d : Document) : FragmentDefect → Prop
  | duplicate {x : String} (h : d.entry.anchors.Duplicate x) : Broken d (.duplicateAnchor x)
  | unknown {x : String} (hnodup : d.entry.anchors.Nodup) (hlink : x ∈ d.entry.links)
      (hunknown : x ∉ d.entry.anchors) : Broken d (.unknownAnchor x)

/-- The document stands in `b` behind the declarations of `a`, which are as
they were: its root first and all its declarations in pre-order.  Declarations
without a namespace have that of the root, and if the root has none either, the
one that the attribute `targetNamespace` of the root names. -/
structure Transcribed (d : Document) (a b : Arena) : Prop where
  grown : b.Extends a
  size : b.size = a.size + d.entry.size
  stands : d.entry.Stands ((d.head.space <|> d.head.attributes.get? "targetNamespace").getD "")
    (anchored (place a.size d.entry)) b a.size ⟨a.size⟩

variable {d : Document} {a : Arena}

/-- A document that a defect is named of is not linked. -/
theorem Broken.not_linked {defect : FragmentDefect} (h : d.Broken defect) : ¬ d.Linked := by
  intro hlinked
  cases h with
  | duplicate hdup => exact hdup.not_nodup hlinked.1
  | unknown hnodup hlink hunknown => exact hunknown (hlinked.2 _ hlink)

/-- The links of a document are what its waiting slots ask for. -/
theorem mem_links_iff_waiting {l : Loading} {s : Slot}
    (hadd : add d.space { arena := a } d.entry = (l, .ok s)) {x : String} :
    x ∈ d.entry.links ↔ ∃ w ∈ l.waiting.reverse, Slot.link x ∈ w.2 := by
  obtain ⟨-, -, hwaiting⟩ := added_of_add hadd
  rw [mem_links_iff a.size d.entry]
  constructor
  · intro h
    obtain ⟨p, hp, hx⟩ := h.resolve_left (by simp [entry, slot])
    exact ⟨(p.id, p.slots), (hwaiting p.id p.slots).mpr ⟨p, hp, rfl, rfl⟩, hx⟩
  · intro h
    obtain ⟨⟨id, slots⟩, hw, hx⟩ := h
    obtain ⟨p, hp, -, rfl⟩ := (hwaiting id slots).mp hw
    exact .inr ⟨p, hp, hx⟩

/-- **Loading a document** tells whether it is linked, and what is wrong if it
is not. -/
theorem linked_or_broken (d : Document) (a : Arena) :
    (∃ root, (d.load a).2 = .ok root ∧ d.Linked) ∨
      ∃ defect, (d.load a).2 = .error defect ∧ d.Broken defect := by
  have hknows : ({ arena := a } : Loading).Knows [] := fun x => by simp [Table.contains]; rfl
  have htold := told_add d.space hknows List.nodup_nil d.entry
  rw [List.nil_append] at htold
  rw [Document.load, show Fragment.declaration d.head d.children = d.entry from rfl]
  cases hadd : add d.space { arena := a } d.entry with
  | mk l outcome =>
      rw [hadd] at htold
      cases outcome with
      | error defect =>
          obtain ⟨x, rfl, hdup⟩ := htold
          exact .inr ⟨_, rfl, .duplicate hdup⟩
      | ok s =>
          obtain ⟨hcarried, hnodup⟩ := htold
          cases hconnect : connect l.anchors l.arena l.waiting.reverse with
          | mk b fault =>
              simp only [hconnect]
              cases fault with
              | some defect =>
                  obtain ⟨x, rfl, hwaits, hunknown⟩ := connect_eq_error hconnect
                  rw [← Bool.not_eq_true, hcarried] at hunknown
                  exact .inr ⟨_, rfl,
                    .unknown hnodup ((mem_links_iff_waiting hadd).mpr hwaits) hunknown⟩
              | none =>
                  refine .inl ⟨_, rfl, hnodup, fun x hx => ?_⟩
                  obtain ⟨⟨id, slots⟩, hw, hlink⟩ := (mem_links_iff_waiting hadd).mp hx
                  obtain ⟨children, hsettle, -⟩ := connect_eq_ok hconnect (nodup_waiting hadd) hw
                  obtain ⟨c, -, hcarrier⟩ := exists_counterpart (settle_eq_ok hsettle) hlink
                  have hget : l.anchors.get? x = some c := hcarrier
                  exact (hcarried x).mp (by simp [Table.contains, hget])

/-- A document that loads is transcribed to the end of the arena. -/
theorem transcribed_of_load {root : NodeId} (h : (d.load a).2 = .ok root) :
    root = ⟨a.size⟩ ∧ d.Transcribed a (d.load a).1 := by
  have hload : d.load a = ((d.load a).1, .ok root) := by rw [← h]
  obtain ⟨hroot, hloaded⟩ := loaded_of_load hload
  refine ⟨hroot, (annexed_load d a).grown, hloaded.size, ?_⟩
  have hcarriers : ∀ x id, (d.anchorsFrom a.size).get? x = some id →
      (x, id) ∈ anchored (place a.size d.entry) := by
    intro x id hget
    exact (Table.mem_of_get?_foldl_insert hget).resolve_right (by simp)
  exact stands_of_placed hcarriers hloaded.placed rfl

/-- **Loading is exact.**  A document loads if and only if it is linked; if it
does, it is transcribed, and if it does not, what is reported is wrong with it.
Loading a text is loading the document that it is read as. -/
theorem load_exact (d : Document) (a : Arena) :
    ((∃ root, (d.load a).2 = .ok root) ↔ d.Linked) ∧
    (∀ root, (d.load a).2 = .ok root → root = ⟨a.size⟩ ∧ d.Transcribed a (d.load a).1) ∧
    (∀ defect, (d.load a).2 = .error defect → d.Broken defect) ∧
    ∀ text, Document.ofText text = .ok d →
      a.load text = ((d.load a).1, (d.load a).2.mapError .invalidFragment) := by
  refine ⟨?_, fun root h => transcribed_of_load h, ?_, ?_⟩
  · obtain ⟨root, hload, hlinked⟩ | ⟨defect, hload, hbroken⟩ := linked_or_broken d a
    · exact ⟨fun _ => hlinked, fun _ => ⟨root, hload⟩⟩
    · constructor
      · intro h
        obtain ⟨root, hroot⟩ := h
        rw [hload] at hroot
        contradiction
      · intro hlinked
        exact absurd hlinked hbroken.not_linked
  · intro defect h
    obtain ⟨root, hload, -⟩ | ⟨defect', hload, hbroken⟩ := linked_or_broken d a
    · rw [hload] at h
      contradiction
    · rw [hload] at h
      exact Except.error.inj h ▸ hbroken
  · intro text htext
    rw [Arena.load, htext]
    cases hload : d.load a with
    | mk b outcome =>
        cases outcome with
        | error defect => simp only [hload, Except.mapError]
        | ok root => simp only [hload, Except.mapError]

/-! A document with links forward, to the linking declaration itself and to the
root. -/

def cyclicText : String :=
  "\x7b\"kind\":\"schema\",\"anchor\":\"a\",\"children\":[\x7b\"link\":\"b\"\x7d," ++
  "\x7b\"kind\":\"group\",\"anchor\":\"b\"," ++
  "\"children\":[\x7b\"link\":\"b\"\x7d,\x7b\"link\":\"a\"\x7d]\x7d]\x7d"

def cyclicArena : Arena where
  nodes := #[
    { kind := .schema, space := "", children := [⟨1⟩, ⟨1⟩] },
    { kind := .group, space := "", children := [⟨1⟩, ⟨0⟩] }]

theorem load_cyclicText : (∅ : Arena).load cyclicText = (cyclicArena, .ok ⟨0⟩) := by
  decide +kernel

theorem load_exact_cyclic : ∃ d, Document.ofText cyclicText = .ok d ∧
    (d.load ∅).2 = .ok ⟨0⟩ ∧ d.Linked ∧ d.Transcribed ∅ cyclicArena := by
  obtain ⟨d, htext, hload⟩ := Arena.exists_document_of_load load_cyclicText
  obtain ⟨hlinked, htranscribed, -, -⟩ := load_exact d ∅
  rw [hload] at hlinked htranscribed
  obtain ⟨-, hstands⟩ := htranscribed ⟨0⟩ rfl
  exact ⟨d, htext, by rw [hload], hlinked.mp ⟨⟨0⟩, rfl⟩, hstands⟩

end Document

end SchemaCatalog
