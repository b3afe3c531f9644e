import Mathlib.Data.List.Induction
import Mathlib.Data.List.Pairwise
import Mathlib.Tactic.Choose
import SchemaCatalog.Files.Tree

/-!
# SchemaCatalog.Proofs.Files.Below

The files below a directory in the order of their places are what a depth-first
walk meets that takes the entries of each directory in the order of their names
(`below_eq_of_meets`).

The order of one directory's entries adds up to the order of all places: what
the walk meets under an earlier name comes before what it meets under a later
one, however the names go on from there (`Meets.increasing`).  Both lists are in
order, so they are equal once they have the same members.
-/

namespace SchemaCatalog.Files

open Std

/-! ## Places in order -/

section

variable {p q r : Place} {m n : String}

/-- Two places below one place compare as the ways down to them. -/
theorem compare_append_left (p q r : Place) : compare (p ++ q) (p ++ r) = compare q r := by
  induction p with
  | nil => rfl
  | cons n p ih =>
      have hsame : compare n n = .eq := ReflCmp.compare_self
      rw [List.cons_append, List.cons_append, List.compare_cons_cons, hsame, ih]
      rfl

/-- A directory comes before what is below it. -/
theorem compare_below (p q : Place) (n : String) : compare p (p ++ n :: q) = .lt := by
  have h := compare_append_left p [] (n :: q)
  rw [List.append_nil] at h
  rw [h]
  rfl

/-- Earlier names come before later ones with all that is below them. -/
theorem compare_beside (p q r : Place) (h : compare m n = .lt) :
    compare (p ++ [m] ++ q) (p ++ [n] ++ r) = .lt := by
  rw [List.append_assoc, List.append_assoc, compare_append_left, List.singleton_append,
    List.singleton_append, List.compare_cons_cons, h]
  rfl

/-- The order of names is that of their characters. -/
theorem compare_name_eq_lt : compare m n = .lt ↔ m < n :=
  compareOfLessAndEq_eq_lt

/-- The order of places is that of their names, one by one. -/
theorem compare_eq_lt : compare p q = .lt ↔ p < q := by
  induction p generalizing q with
  | nil =>
      cases q with
      | nil => simp
      | cons n q => exact iff_of_true rfl (List.nil_lt_cons n q)
  | cons m p ih =>
      cases q with
      | nil => exact iff_of_false (by rw [List.compare_cons_nil]; decide) (List.not_lt_nil _)
      | cons n q =>
          rw [List.compare_cons_cons, List.cons_lt_cons_iff, Ordering.then_eq_lt,
            compare_name_eq_lt, LawfulEqCmp.compare_eq_iff_eq, ih]

end

/-- Entries in order are known by their members. -/
theorem ext_of_increasing {α : Type} {l l' : List (Place × α)} (h : Increasing l)
    (h' : Increasing l') (hmem : ∀ p a, (p, a) ∈ l ↔ (p, a) ∈ l') : l = l' := by
  have htable : (⟨l, h⟩ : Table Place α) = ⟨l', h'⟩ := by
    refine Table.ext_get? fun p => Option.ext fun a => ?_
    rw [← Table.mem_entries_iff, ← Table.mem_entries_iff]
    exact hmem p a
  exact congrArg (·.entries) htable

namespace Tree

/-! ## Ways down -/

section

variable {p q : Place} {name : String}

/-- A way leads down if it takes a step and each of its steps is an entry. -/
theorem leadsDown_iff : leadsDown p ↔ p ≠ [] ∧ ∀ name ∈ p, isEntry name := by
  rw [leadsDown, Bool.and_eq_true, Bool.not_eq_true', List.isEmpty_eq_false_iff, List.all_eq_true]

theorem leadsDown_singleton : leadsDown [name] ↔ isEntry name := by
  simp [leadsDown]

/-- A way down continued by a way down is a way down. -/
theorem leadsDown_append (hp : p ≠ []) (hq : q ≠ []) :
    leadsDown (p ++ q) ↔ leadsDown p ∧ leadsDown q := by
  rw [leadsDown_iff, leadsDown_iff, leadsDown_iff, List.forall_mem_append]
  exact ⟨fun h => ⟨⟨hp, h.2.1⟩, hq, h.2.2⟩,
    fun h => ⟨List.append_ne_nil_of_left_ne_nil hp q, h.1.2, h.2.2⟩⟩

end

/-! ## Walks -/

/-- What a walk meets that starts at something: a file by itself, and a directory
before what is below it.  The entries of a directory are taken in the order of
their names, each with all that is below it. -/
inductive Meets (t : Tree) : Place → Node → List (Place × Node) → Prop
  | file {place : Place} (content : ByteArray) :
    Meets t place (.file content) [(place, .file content)]
  | directory {place : Place} {entries : List (String × Node)}
    {below : String × Node → List (Place × Node)}
    (complete : ∀ name node, (name, node) ∈ entries ↔
      isEntry name ∧ t.nodes.get? (place ++ [name]) = some node)
    (sorted : entries.Pairwise fun e e' => e.1 < e'.1)
    (walks : ∀ e ∈ entries, Meets t (place ++ [e.1]) e.2 (below e)) :
    Meets t place .directory ((place, .directory) :: entries.flatMap below)

/-- What is below a place stands in directories. -/
def Regular (t : Tree) (place : Place) : Prop :=
  ∀ below name, leadsDown below → isEntry name →
    (t.nodes.get? (place ++ below ++ [name])).isSome →
    t.nodes.get? (place ++ below) = some .directory

variable {t : Tree} {place : Place} {node : Node} {met : List (Place × Node)}

theorem eq_directory_of_any {o : Option Node} (h : o.any (·.isDirectory)) :
    o = some .directory := by
  cases o with
  | none => contradiction
  | some node =>
      cases node with
      | file content => contradiction
      | directory => rfl

/-- It is enough to look at what stands above each place. -/
theorem regular_of_keys (h : ∀ p ∈ t.nodes.keys, place.length + 1 < p.length →
    (t.nodes.get? p.dropLast).any (·.isDirectory)) : t.Regular place := by
  intro below name hbelow _ hget
  obtain ⟨node, hnode⟩ := Option.isSome_iff_exists.mp hget
  have hkey : place ++ below ++ [name] ∈ t.nodes.keys :=
    List.mem_map.mpr ⟨_, (Table.mem_entries_iff _).mpr hnode, rfl⟩
  have hdeep : place.length + 1 < (place ++ below ++ [name]).length := by
    have hlength := List.length_pos_iff.mpr (leadsDown_iff.mp hbelow).1
    rw [List.length_append, List.length_append, List.length_singleton]
    omega
  have hdirectory := eq_directory_of_any (h _ hkey hdeep)
  rwa [List.dropLast_concat] at hdirectory

namespace Meets

/-- Everything that is met is where the walk starts, or somewhere below. -/
theorem place_isPrefix (h : Meets t place node met) : ∀ e ∈ met, place <+: e.1 := by
  induction h with
  | file content =>
      intro e he
      obtain rfl := List.mem_singleton.mp he
      exact List.prefix_rfl
  | directory complete sorted walks ih =>
      intro e he
      rcases List.mem_cons.mp he with rfl | he
      · exact List.prefix_rfl
      · obtain ⟨entry, hentry, he⟩ := List.mem_flatMap.mp he
        exact (List.prefix_append _ _).trans (ih entry hentry e he)

/-- **What is met is met in the order of places.** -/
theorem increasing (h : Meets t place node met) : Increasing met := by
  induction h with
  | file content => exact List.pairwise_singleton _ _
  | @directory place entries below complete sorted walks ih =>
      refine List.pairwise_cons.mpr ⟨fun e he => ?_, List.pairwise_flatMap.mpr ⟨ih, ?_⟩⟩
      · obtain ⟨entry, hentry, he⟩ := List.mem_flatMap.mp he
        obtain ⟨rest, hrest⟩ := (walks entry hentry).place_isPrefix e he
        rw [← hrest, List.append_assoc]
        exact compare_below place rest entry.1
      · refine sorted.imp_of_mem fun {entry entry'} hentry hentry' hlt e he e' he' => ?_
        obtain ⟨rest, hrest⟩ := (walks entry hentry).place_isPrefix e he
        obtain ⟨rest', hrest'⟩ := (walks entry' hentry').place_isPrefix e' he'
        rw [← hrest, ← hrest']
        exact compare_beside place rest rest' (compare_name_eq_lt.mpr hlt)

/-- Everything that is met below is there. -/
theorem get?_of_mem (h : Meets t place node met) :
    ∀ e ∈ met, e = (place, node) ∨
      ∃ rest, leadsDown rest ∧ e.1 = place ++ rest ∧ t.nodes.get? e.1 = some e.2 := by
  induction h with
  | file content => exact fun e he => .inl (List.mem_singleton.mp he)
  | directory complete sorted walks ih =>
      intro e he
      rcases List.mem_cons.mp he with rfl | he
      · exact .inl rfl
      · obtain ⟨entry, hentry, he⟩ := List.mem_flatMap.mp he
        obtain ⟨hname, hget⟩ := (complete entry.1 entry.2).mp hentry
        have hdown : leadsDown [entry.1] := leadsDown_singleton.mpr hname
        rcases ih entry hentry e he with rfl | ⟨rest, hrest, hplace, hget⟩
        · exact .inr ⟨[entry.1], hdown, rfl, hget⟩
        · refine .inr ⟨[entry.1] ++ rest, ?_, by rw [hplace, List.append_assoc], hget⟩
          exact (leadsDown_append (List.cons_ne_nil _ _) (leadsDown_iff.mp hrest).1).mpr
            ⟨hdown, hrest⟩

/-- The place where a walk starts is among those that it meets. -/
theorem mem_start (h : Meets t place node met) : (place, node) ∈ met := by
  cases h with
  | file content => exact List.mem_singleton_self _
  | directory complete sorted walks => exact List.mem_cons_self

end Meets

/-- The way to what is below a place leads through directories. -/
theorem Regular.directory (h : t.Regular place) {way rest : Place} (hway : leadsDown way)
    (hrest : leadsDown rest) (hget : (t.nodes.get? (place ++ way ++ rest)).isSome) :
    t.nodes.get? (place ++ way) = some .directory := by
  induction rest using List.reverseRecOn with
  | nil => contradiction
  | append_singleton rest name ih =>
      rw [← List.append_assoc, List.append_assoc place] at hget
      by_cases hnil : rest = []
      · rw [hnil, List.append_nil] at hget
        rw [hnil, List.nil_append] at hrest
        exact h way name hway (leadsDown_singleton.mp hrest) hget
      · obtain ⟨hrest, hname⟩ := (leadsDown_append hnil (List.cons_ne_nil _ _)).mp hrest
        have hdown : leadsDown (way ++ rest) :=
          (leadsDown_append (leadsDown_iff.mp hway).1 hnil).mpr ⟨hway, hrest⟩
        have hparent := h (way ++ rest) name hdown (leadsDown_singleton.mp hname) hget
        rw [← List.append_assoc] at hparent
        exact ih hrest (by rw [hparent]; rfl)

/-- What lies below a regular place by one entry is regular. -/
theorem Regular.child (h : t.Regular place) {name : String} (hname : isEntry name) :
    t.Regular (place ++ [name]) := by
  intro below last hbelow hlast hget
  rw [List.append_assoc place] at hget ⊢
  refine h ([name] ++ below) last ?_ hlast hget
  exact (leadsDown_append (List.cons_ne_nil _ _) (leadsDown_iff.mp hbelow).1).mpr
    ⟨leadsDown_singleton.mpr hname, hbelow⟩

/-- **Nothing below a directory is missed.** -/
theorem Meets.mem_of_get? (h : Meets t place .directory met) (hregular : t.Regular place)
    {rest : Place} {node : Node} (hrest : leadsDown rest)
    (hget : t.nodes.get? (place ++ rest) = some node) : (place ++ rest, node) ∈ met := by
  generalize hstart : Node.directory = start at h
  induction h generalizing rest with
  | file content => contradiction
  | @directory place entries below complete sorted walks ih =>
      obtain ⟨name, rest, rfl⟩ := List.exists_cons_of_ne_nil (leadsDown_iff.mp hrest).1
      refine List.mem_cons_of_mem _ (List.mem_flatMap.mpr ?_)
      by_cases hnil : rest = []
      · subst hnil
        have hentry := (complete name node).mpr ⟨leadsDown_singleton.mp hrest, hget⟩
        exact ⟨_, hentry, (walks _ hentry).mem_start⟩
      · rw [← List.singleton_append] at hrest
        obtain ⟨hdown, hrest⟩ := (leadsDown_append (List.cons_ne_nil _ _) hnil).mp hrest
        have hname := leadsDown_singleton.mp hdown
        rw [← List.singleton_append, ← List.append_assoc] at hget ⊢
        have hchild : t.nodes.get? (place ++ [name]) = some .directory :=
          hregular.directory hdown hrest (by rw [hget]; rfl)
        have hentry := (complete name .directory).mpr ⟨hname, hchild⟩
        exact ⟨_, hentry, ih _ hentry (hregular.child hname) hrest hget rfl⟩

/-! ## Files -/

/-- A file that is met, with the names that lead to it from where the walk
started. -/
def fileFrom (place : Place) : Place × Node → Option (Place × ByteArray)
  | (p, .file content) => some (p.drop place.length, content)
  | (_, .directory) => none

/-- A file below a place, with the names that lead to it from there. -/
def fileBelow (place : Place) : Place × Node → Option (Place × ByteArray)
  | (p, .file content) =>
    let names := p.drop place.length
    if place.isPrefixOf p && leadsDown names then some (names, content) else none
  | (_, .directory) => none

section

variable {e : Place × Node} {rest : Place} {content : ByteArray}

/-- Below a place a file is found under the rest of its own place. -/
theorem fileFrom_eq_some_iff (h : place <+: e.1) :
    fileFrom place e = some (rest, content) ↔ e = (place ++ rest, .file content) := by
  obtain ⟨p, node⟩ := e
  obtain ⟨more, rfl⟩ := h
  cases node with
  | directory => simp [fileFrom]
  | file content' => simp [fileFrom]

/-- A file counts as below a place if the rest of its place leads down. -/
theorem fileBelow_eq_some_iff :
    fileBelow place e = some (rest, content) ↔
      leadsDown rest ∧ e = (place ++ rest, .file content) := by
  obtain ⟨p, node⟩ := e
  cases node with
  | directory => simp [fileBelow]
  | file content' =>
      rw [fileBelow]
      split
      · next hbelow =>
        obtain ⟨hstart, hmore⟩ := Bool.and_eq_true_iff.mp hbelow
        obtain ⟨more, rfl⟩ := List.isPrefixOf_iff_prefix.mp hstart
        rw [List.drop_left] at hmore
        rw [List.drop_left, Option.some_inj, Prod.mk.injEq, Prod.mk.injEq, List.append_right_inj,
          Node.file.injEq]
        exact ⟨fun h => ⟨h.1 ▸ hmore, h⟩, And.right⟩
      · next hbelow =>
        refine iff_of_false (by simp) ?_
        rintro ⟨hrest, heq⟩
        obtain ⟨rfl, -⟩ := Prod.mk.inj heq
        exact hbelow (by simpa using hrest)

/-- The files below a place are the files of the tree at a way down from it. -/
theorem mem_below :
    (rest, content) ∈ t.below place ↔
      leadsDown rest ∧ t.nodes.get? (place ++ rest) = some (.file content) := by
  have hbelow : t.below place = t.nodes.entries.filterMap (fileBelow place) := rfl
  rw [hbelow, List.mem_filterMap, ← Table.mem_entries_iff]
  constructor
  · rintro ⟨e, he, hfile⟩
    obtain ⟨hrest, rfl⟩ := fileBelow_eq_some_iff.mp hfile
    exact ⟨hrest, he⟩
  · rintro ⟨hrest, he⟩
    exact ⟨_, he, fileBelow_eq_some_iff.mpr ⟨hrest, rfl⟩⟩

end

/-- The files below a place are listed in the order of their places. -/
theorem increasing_below : Increasing (t.below place) := by
  refine List.pairwise_filterMap.mpr (t.nodes.increasing.imp fun {e e'} hlt f hf f' hf' => ?_)
  obtain ⟨-, rfl⟩ := fileBelow_eq_some_iff.mp hf
  obtain ⟨-, rfl⟩ := fileBelow_eq_some_iff.mp hf'
  rwa [compare_append_left] at hlt

/-- **The files below a directory are those that a walk meets, in its order.** -/
theorem below_eq_of_meets (h : Meets t place .directory met) (hregular : t.Regular place) :
    t.below place = met.filterMap (fileFrom place) := by
  have hmet : Increasing (met.filterMap (fileFrom place)) := by
    refine List.pairwise_filterMap.mpr ?_
    refine h.increasing.imp_of_mem fun {e e'} he he' hlt f hf f' hf' => ?_
    obtain rfl := (fileFrom_eq_some_iff (h.place_isPrefix e he)).mp hf
    obtain rfl := (fileFrom_eq_some_iff (h.place_isPrefix e' he')).mp hf'
    rwa [compare_append_left] at hlt
  refine ext_of_increasing increasing_below hmet fun rest content => ?_
  rw [mem_below, List.mem_filterMap]
  constructor
  · rintro ⟨hrest, hget⟩
    exact ⟨_, h.mem_of_get? hregular hrest hget,
      (fileFrom_eq_some_iff (List.prefix_append _ _)).mpr rfl⟩
  · rintro ⟨e, he, hfile⟩
    obtain rfl := (fileFrom_eq_some_iff (h.place_isPrefix e he)).mp hfile
    rcases h.get?_of_mem _ he with hstart | ⟨names, hnames, hplace, hget⟩
    · exact absurd (Prod.mk.inj hstart).2 (by simp)
    · rw [List.append_cancel_left hplace]
      rw [List.append_cancel_left hplace] at hget
      exact ⟨hnames, hget⟩

/-! ## Every place can be walked from -/

/-- An entry of a directory, with its name. -/
def childOf (place : Place) (e : Place × Node) : Option (String × Node) :=
  e.1.getLast?.bind fun name =>
    if e.1 = place ++ [name] ∧ isEntry name then some (name, e.2) else none

/-- A child is a node one entry further down. -/
theorem childOf_eq_some_iff {e : Place × Node} {name : String} :
    childOf place e = some (name, node) ↔ isEntry name ∧ e = (place ++ [name], node) := by
  obtain ⟨p, node'⟩ := e
  rw [childOf, Option.bind_eq_some_iff]
  constructor
  · rintro ⟨last, -, h⟩
    split at h
    · next hlast =>
      obtain ⟨rfl, rfl⟩ := Prod.mk.inj (Option.some.inj h)
      exact ⟨hlast.2, Prod.ext hlast.1 rfl⟩
    · contradiction
  · rintro ⟨hname, h⟩
    obtain ⟨rfl, rfl⟩ := Prod.mk.inj h
    exact ⟨name, List.getLast?_concat, if_pos ⟨rfl, hname⟩⟩

def children (t : Tree) (place : Place) : List (String × Node) :=
  t.nodes.entries.filterMap (childOf place)

/-- The children of a place are the nodes one entry further down. -/
theorem mem_children {name : String} :
    (name, node) ∈ t.children place ↔
      isEntry name ∧ t.nodes.get? (place ++ [name]) = some node := by
  rw [children, List.mem_filterMap, ← Table.mem_entries_iff]
  constructor
  · rintro ⟨e, he, hchild⟩
    obtain ⟨hname, rfl⟩ := childOf_eq_some_iff.mp hchild
    exact ⟨hname, he⟩
  · rintro ⟨hname, he⟩
    exact ⟨_, he, childOf_eq_some_iff.mpr ⟨hname, rfl⟩⟩

/-- The children of a place are listed by their names. -/
theorem sorted_children : (t.children place).Pairwise fun e e' => e.1 < e'.1 := by
  refine List.pairwise_filterMap.mpr (t.nodes.increasing.imp fun {e e'} hlt c hc c' hc' => ?_)
  obtain ⟨-, rfl⟩ := childOf_eq_some_iff.mp hc
  obtain ⟨-, rfl⟩ := childOf_eq_some_iff.mp hc'
  rw [compare_append_left, List.compare_cons_cons, Ordering.then_eq_lt] at hlt
  rcases hlt with hlt | ⟨-, hnil⟩
  · exact compare_name_eq_lt.mp hlt
  · contradiction

/-- The places of a list are no longer than some bound. -/
theorem exists_bound (ps : List Place) : ∃ n, ∀ p ∈ ps, p.length ≤ n := by
  induction ps with
  | nil => exact ⟨0, by simp⟩
  | cons p ps ih =>
      obtain ⟨n, hn⟩ := ih
      refine ⟨max p.length n, List.forall_mem_cons.mpr ⟨Nat.le_max_left _ _, fun q hq => ?_⟩⟩
      exact Nat.le_trans (hn q hq) (Nat.le_max_right _ _)

/-- There is a walk from everywhere. -/
theorem exists_meets (t : Tree) (place : Place) (node : Node) : ∃ met, Meets t place node met := by
  -- The induction is on how much deeper the tree can be than where the walk starts.
  have hbound : ∃ n, ∀ p node, t.nodes.get? p = some node → p.length ≤ place.length + n := by
    obtain ⟨n, hn⟩ := exists_bound t.nodes.keys
    refine ⟨n, fun p node hget => Nat.le_add_left_of_le (hn p ?_)⟩
    exact List.mem_map.mpr ⟨_, (Table.mem_entries_iff _).mpr hget, rfl⟩
  obtain ⟨n, hn⟩ := hbound
  induction n generalizing place node with
  | zero =>
      cases node with
      | file content => exact ⟨_, .file content⟩
      | directory =>
          have hnone (e : String × Node) (he : e ∈ t.children place) : False := by
            have hlength := hn _ _ (mem_children.mp he).2
            rw [List.length_append, List.length_singleton] at hlength
            omega
          exact ⟨(place, .directory) :: (t.children place).flatMap fun _ => [],
            .directory (fun _ _ => mem_children) sorted_children fun e he => (hnone e he).elim⟩
  | succ n ih =>
      cases node with
      | file content => exact ⟨_, .file content⟩
      | directory =>
          have hwalks (e : String × Node) : ∃ met, Meets t (place ++ [e.1]) e.2 met := by
            refine ih (place ++ [e.1]) e.2 fun p node hget => ?_
            have hlength := hn p node hget
            rw [List.length_append, List.length_singleton]
            omega
          choose below hbelow using hwalks
          exact ⟨_, .directory (fun _ _ => mem_children) sorted_children fun e _ => hbelow e⟩

end Tree

end SchemaCatalog.Files
