import Mathlib.Algebra.BigOperators.Group.List.Basic
import Mathlib.Algebra.GroupWithZero.Nat
import SchemaCatalog.Proofs.Fragment.Outcome
import SchemaCatalog.Proofs.Walk.Coverage

/-!
# SchemaCatalog.Proofs.Walk.Tally

What a walk of loaded documents counts.  Every event of a route that meets
nothing unknown takes one edge, out of a root that is entered or out of a node
that is called (`length_route`).  If each document has been added once, then
these are all declarations (`Complete.perm_ids`), and the walk takes every edge
of the arena once (`Complete.length_itinerary`).

The edges are counted from the texts.  A document has one for each declaration
but its root, and one for each link (`sum_slots_place`, `Loaded.edgeCount`).  As
many edges lead to a call as there are declarations besides the roots, so those
that are skipped are as many as the links, although an edge that is skipped
need not be that of a link: a declaration may be reached by a link first.
-/

namespace SchemaCatalog

open Walk

/-! ## edges of an arena -/

namespace Arena

/-- The number of edges out of a declaration. -/
def degree (a : Arena) (id : NodeId) : Nat :=
  ((a.get? id).map (·.children.length)).getD 0

def ids (a : Arena) : List NodeId := (List.range a.size).map .mk

def edgeCount (a : Arena) : Nat := (a.ids.map a.degree).sum

theorem degree_of_get? {a : Arena} {id : NodeId} {d : Declaration} (h : a.get? id = some d) :
    a.degree id = d.children.length := by
  simp [degree, h]

@[simp] theorem degree_markProcessed (a : Arena) (id : NodeId) :
    (a.markProcessed id).degree = a.degree := by
  funext q
  simp [degree, get?_markProcessed, Function.comp_def]

@[simp] theorem length_ids (a : Arena) : a.ids.length = a.size := by
  simp [ids]

/-- The ids are those of the declarations. -/
theorem mem_ids {a : Arena} {id : NodeId} : id ∈ a.ids ↔ a.Valid id := by
  rw [ids, List.mem_map, Valid]
  constructor
  · rintro ⟨i, hi, rfl⟩
    exact List.mem_range.mp hi
  · intro hid
    exact ⟨id.index, List.mem_range.mpr hid, rfl⟩

theorem nodup_ids (a : Arena) : a.ids.Nodup :=
  List.nodup_range.map fun _ _ h => NodeId.mk.inj h

end Arena

/-! ## edges of a document -/

namespace Fragment

/-- Entries have a slot each. -/
theorem length_slots (n : Nat) (entries : List Fragment) :
    (slots n entries).length = entries.length := by
  induction entries generalizing n with
  | nil => rfl
  | cons entry rest ih => rw [slots, List.length_cons, List.length_cons, ih]

mutual

/-- **An entry has a slot** for each declaration below its own and one for each
link below.  An entry that is a link itself is a slot of the entry above. -/
theorem sum_slots_place (n : Nat) (entry : Fragment) :
    ((place n entry).map (·.slots.length)).sum + 1 = size entry + entry.links.length := by
  cases entry with
  | link anchor => rfl
  | declaration head children =>
      have hchildren := sum_slots_placeAll (n + 1) children
      rw [place, size, links, List.map_cons, List.sum_cons, length_slots]
      omega

/-- Entries below one another have a slot for each declaration or link below. -/
theorem sum_slots_placeAll (n : Nat) (entries : List Fragment) :
    ((placeAll n entries).map (·.slots.length)).sum + entries.length =
      sizeAll entries + (linksAll entries).length := by
  cases entries with
  | nil => rfl
  | cons entry rest =>
      have hfirst := sum_slots_place n entry
      have hrest := sum_slots_placeAll (n + size entry) rest
      rw [placeAll, sizeAll, linksAll, List.map_append, List.sum_append, List.length_append,
        List.length_cons]
      omega

end

end Fragment

namespace Document

open Fragment

variable {d : Document} {a b : Arena}

/-- A loaded document adds the ids of its places. -/
theorem Loaded.ids (h : d.Loaded a b) :
    b.ids = a.ids ++ (place a.size d.entry).map (·.id) := by
  have hplaces : (place a.size d.entry).map (·.id) =
      (List.range' a.size d.entry.size).map NodeId.mk := by
    rw [← ids_place, List.map_map]
    rfl
  have hrange : List.range (a.size + d.entry.size) =
      List.range a.size ++ List.range' a.size d.entry.size := by
    rw [List.range_add, List.range'_eq_map_range]
  rw [Arena.ids, Arena.ids, hplaces, ← List.map_append, h.size, hrange]

/-- A loaded declaration has an edge for each of its slots. -/
theorem Loaded.degree (h : d.Loaded a b) {p : Placed} (hp : p ∈ place a.size d.entry) :
    b.degree p.id = p.slots.length := by
  obtain ⟨children, hfills, hget⟩ := h.placed p hp
  rw [Arena.degree_of_get? hget]
  exact hfills.length_eq.symm

/-- **A loaded document adds an edge** for each declaration but its root, and
one for each link. -/
theorem Loaded.edgeCount (h : d.Loaded a b) (hgrow : b.Extends a) :
    b.edgeCount + 1 = a.edgeCount + d.entry.size + d.entry.links.length := by
  have hold : a.ids.map b.degree = a.ids.map a.degree := by
    refine List.map_congr_left fun id hid => ?_
    obtain ⟨e, he⟩ := Arena.valid_iff.mp (Arena.mem_ids.mp hid)
    rw [Arena.degree_of_get? he, Arena.degree_of_get? (hgrow id e he)]
  have hnew : ((place a.size d.entry).map (·.id)).map b.degree =
      (place a.size d.entry).map (·.slots.length) := by
    rw [List.map_map]
    exact List.map_congr_left fun p hp => h.degree hp
  have hslots := sum_slots_place a.size d.entry
  rw [Arena.edgeCount, Arena.edgeCount, h.ids, List.map_append, List.sum_append, hold, hnew]
  omega

end Document

/-! ## edges of a route -/

namespace Walk

/-- The number of edges that a task is at first. -/
def Task.edges (a : Arena) : Task → Nat
  | enter _ root => a.degree root
  | take _ _ _ => 1

theorem Task.edges_markProcessed (a : Arena) (id : NodeId) :
    Task.edges (a.markProcessed id) = Task.edges a := by
  funext t
  cases t with
  | enter registry root => rw [edges, edges, Arena.degree_markProcessed]
  | take registry root id => rfl

/-- The tasks below a node are as many edges as it has children. -/
theorem Task.sum_edges_below (a : Arena) (registry : Registry) (root : NodeId) (d : Declaration) :
    ((below registry root d).map (edges a)).sum = d.children.length := by
  rw [below, List.map_map]
  simp [Function.comp_def, edges]

/-- **Each event takes an edge**, of a task or out of a called node, if the
route meets nothing unknown. -/
theorem length_route {a : Arena} {tasks : List Task}
    (hknown : ∀ id, Event.unknown id ∉ route a tasks) :
    (route a tasks).length =
      (tasks.map (Task.edges a)).sum + ((called (route a tasks)).map a.degree).sum := by
  induction a, tasks using route_induction with
  | done a => simp
  | lost a registry root tasks h ih =>
      rw [route_enter_none h] at hknown
      exact absurd List.mem_cons_self (hknown root)
  | enter a registry root tasks d h ih =>
      rw [route_enter_some h] at hknown ⊢
      rw [ih hknown, List.map_append, List.sum_append, Task.sum_edges_below, List.map_cons,
        List.sum_cons, Task.edges, Arena.degree_of_get? h]
  | root a registry root id tasks h ih =>
      rw [route_root h] at hknown ⊢
      have hrest := ih fun q hq => hknown q (List.mem_cons_of_mem _ hq)
      simp only [List.length_cons, called_skip, List.map_cons, List.sum_cons, Task.edges, hrest]
      omega
  | dangling a registry root id tasks hr h ih =>
      rw [route_unknown hr h] at hknown
      exact absurd List.mem_cons_self (hknown id)
  | flagged a registry root id tasks d hr h hp ih =>
      rw [route_flagged hr h hp] at hknown ⊢
      have hrest := ih fun q hq => hknown q (List.mem_cons_of_mem _ hq)
      simp only [List.length_cons, called_skip, List.map_cons, List.sum_cons, Task.edges, hrest]
      omega
  | call a registry root id tasks d hr h hp ih =>
      rw [route_call hr h hp] at hknown ⊢
      have hrest := ih fun q hq => hknown q (List.mem_cons_of_mem _ hq)
      rw [List.map_append, List.sum_append, Task.sum_edges_below, Task.edges_markProcessed,
        Arena.degree_markProcessed] at hrest
      simp only [List.length_cons, called_call, List.map_cons, List.sum_cons, Task.edges, hrest,
        Arena.degree_of_get? h]
      omega

/-- A route that is followed to its end has each of its events counted. -/
theorem tally_follow {σ : Type} {visit : Visitor σ} {registries : Table String Registry}
    {w w' : Walk σ} {es : List Event} (h : follow visit registries w es = (w', none)) :
    w'.tally.processed + w'.tally.skipped =
      w.tally.processed + w.tally.skipped + es.length := by
  induction es generalizing w with
  | nil =>
      obtain rfl : w = w' := congrArg Prod.fst h
      rfl
  | cons event es ih =>
      cases event with
      | skip =>
          have hrest := ih h
          simp only [Tally.skip] at hrest
          rw [hrest, List.length_cons]
          omega
      | unknown id => simp [follow] at h
      | call c =>
          cases hv : visit ⟨w.arena, c.root, c.registry, registries⟩ c.node w.state with
          | mk state fault =>
              cases fault with
              | none =>
                  rw [follow_call_accepted hv] at h
                  have hrest := ih h
                  simp only [Tally.process] at hrest
                  rw [hrest, List.length_cons]
                  omega
              | some e => simp [follow_call_refused hv] at h

end Walk

/-! ## roots of complete sessions -/

namespace Session

section

variable {s : Session} {roots : List NodeId}

/-- No root is listed twice, be it in one registry or in two. -/
theorem Represented.nodup_roots (h : s.Represented roots) :
    (s.registries.values.flatMap (·.roots)).Nodup := by
  refine nodup_flatMap_registries ?_ ?_
  · intro space r hr
    obtain ⟨first, later, -, hrep⟩ := (h.represents space).of_get? hr
    rw [hrep.roots]
    exact nodup_eraseDups _
  · intro space space' r r' hr hr' hne id hid hid'
    obtain ⟨-, d, hd, hspace⟩ := (h.mem_roots_iff hr).mp hid
    obtain ⟨-, d', hd', hspace'⟩ := (h.mem_roots_iff hr').mp hid'
    obtain rfl := Option.some.inj (hd.symm.trans hd')
    exact hne (hspace.symm.trans hspace')

end

section

variable {s : Session} {documents : List Span} {roots : List NodeId}

/-- No document of a complete session is a root twice. -/
theorem Complete.nodup_roots (h : s.Complete documents roots) : roots.Nodup := by
  rw [h.roots.nodup_iff, List.Nodup, List.pairwise_map]
  refine h.laidOut.apart.imp_of_mem ?_
  intro d e hd _ hapart heq
  have hlt := (h.laidOut.valid d hd).1
  rw [heq] at hlt
  omega

/-- The walk enters each root once. -/
theorem Complete.perm_targets (h : s.Complete documents roots) :
    (s.registries.values.flatMap (·.roots)).Perm roots := by
  refine (List.perm_ext_iff_of_nodup h.represented.nodup_roots h.nodup_roots).mpr fun id => ?_
  rw [List.mem_flatMap]
  exact h.represented.isRoot_iff

/-- The edges that are taken first are those of the roots. -/
theorem sum_edges_enterAll (a : Arena) (registries : List Registry) :
    ((enterAll registries).map (Task.edges a)).sum =
      ((registries.flatMap (·.roots)).map a.degree).sum := by
  congr 1
  rw [enterAll, List.map_flatMap, List.map_flatMap]
  simp only [List.map_map]
  rfl

/-- **All declarations but the roots** are called. -/
theorem Complete.mem_called_iff (h : s.Complete documents roots)
    (hcover : ∀ id, s.arena.Valid id → ∃ d ∈ documents, d.Has id) {id : NodeId} :
    id ∈ called s.itinerary ↔ s.arena.Valid id ∧ id ∉ roots := by
  have hroots : ∀ q, q ∈ roots ↔ ∃ d ∈ documents, d.root = q :=
    fun q => h.represented.isRoot_iff.symm.trans h.isRoot_iff
  rw [h.mem_called_iff_inner, hroots]
  constructor
  · rintro ⟨d, hd, hinner⟩
    obtain ⟨hhas, hne⟩ := Span.inner_iff.mp hinner
    refine ⟨h.laidOut.valid_of_has hd hhas, ?_⟩
    rintro ⟨e, he, rfl⟩
    obtain rfl := h.laidOut.eq_of_has hd he hhas (h.has_root he)
    exact hne rfl
  · rintro ⟨hid, hroot⟩
    obtain ⟨d, hd, hhas⟩ := hcover id hid
    refine ⟨d, hd, Span.inner_iff.mpr ⟨hhas, ?_⟩⟩
    rintro rfl
    exact hroot ⟨d, hd, rfl⟩

/-- The roots and the called nodes are all declarations, each once. -/
theorem Complete.perm_ids (h : s.Complete documents roots)
    (hcover : ∀ id, s.arena.Valid id → ∃ d ∈ documents, d.Has id) :
    (roots ++ called s.itinerary).Perm s.arena.ids := by
  have hdisjoint : roots.Disjoint (called s.itinerary) :=
    fun id hroot hcalled => ((h.mem_called_iff hcover).mp hcalled).2 hroot
  have hnodup : (roots ++ called s.itinerary).Nodup :=
    h.nodup_roots.append (nodup_called_route _ _) hdisjoint
  refine (List.perm_ext_iff_of_nodup hnodup s.arena.nodup_ids).mpr fun id => ?_
  rw [List.mem_append, Arena.mem_ids, h.mem_called_iff hcover]
  by_cases hroot : id ∈ roots
  · exact iff_of_true (.inl hroot) (h.represented.validRoots id hroot)
  · simp [hroot]

/-- **The walk takes every edge once.** -/
theorem Complete.length_itinerary (h : s.Complete documents roots)
    (hcover : ∀ id, s.arena.Valid id → ∃ d ∈ documents, d.Has id) :
    s.itinerary.length = s.arena.edgeCount := by
  have hknown := h.rooted.unknown_not_mem_itinerary h.laidOut.closed
  rw [itinerary] at hknown ⊢
  rw [length_route hknown, sum_edges_enterAll, Arena.edgeCount,
    ← ((h.perm_ids hcover).map s.arena.degree).sum_eq, List.map_append, List.sum_append,
    (h.perm_targets.map s.arena.degree).sum_eq]
  rfl

end

end Session

/-! ## sessions of loaded texts -/

/-- A text that was loaded, with the places that its document takes up. -/
structure Source extends Span where
  text : String

/-- The number of links in the document that a text is. -/
def Source.links (d : Source) : Nat :=
  match Document.ofText d.text with
  | .ok document => document.entry.links.length
  | .error _ => 0

namespace Session

/-- The session is made of texts that were loaded, and of the documents that
were added, given by their roots.  Both are done in any order, and nothing
else. -/
inductive Gathered (builtins : Builtins) (dedup : Bool) :
    List Source → List NodeId → Session → Prop
  | new : Gathered builtins dedup [] [] { builtins, dedup }
  | load {sources : List Source} {roots : List NodeId} {s : Session} {text : String} {a : Arena}
    {root : NodeId} (h : Gathered builtins dedup sources roots s)
    (hload : s.arena.load text = (a, .ok root)) :
    Gathered builtins dedup (sources ++ [⟨⟨root, a.size⟩, text⟩]) roots { s with arena := a }
  | add {sources : List Source} {roots : List NodeId} {s s' : Session} {root : NodeId}
    (h : Gathered builtins dedup sources roots s) (hadd : s.addDocument root = .ok s') :
    Gathered builtins dedup sources (roots ++ [root]) s'

section

variable {builtins : Builtins} {dedup : Bool} {sources : List Source} {roots : List NodeId}
  {s : Session}

/-- A session gathered from texts is assembled from their spans. -/
theorem Gathered.assembled (h : Gathered builtins dedup sources roots s) :
    Assembled builtins dedup (sources.map (·.toSpan)) roots s := by
  induction h with
  | new => exact .new
  | load _ hload ih =>
      rw [List.map_append]
      exact ih.load hload
  | add _ hadd ih => exact ih.add hadd

/-- Every declaration belongs to a document. -/
theorem Gathered.exists_has (h : Gathered builtins dedup sources roots s) {id : NodeId}
    (hid : s.arena.Valid id) : ∃ d ∈ sources, d.Has id := by
  induction h with
  | new => contradiction
  | @load _ _ s _ _ _ _ hload ih =>
      obtain ⟨d, -, hd⟩ := Arena.exists_document_of_load hload
      obtain ⟨rfl, -⟩ := Document.loaded_of_load hd
      by_cases hold : s.arena.Valid id
      · obtain ⟨e, he, hhas⟩ := ih hold
        exact ⟨e, List.mem_append_left _ he, hhas⟩
      · exact ⟨_, List.mem_append_right _ List.mem_cons_self, Nat.not_lt.mp hold, hid⟩
  | add _ hadd ih =>
      obtain ⟨d, hadd⟩ := addition_of_addDocument hadd
      rw [hadd.arena] at hid
      exact ih hid

/-- **The edges** of all documents: one for each declaration that is not a root,
and one for each link. -/
theorem Gathered.edgeCount (h : Gathered builtins dedup sources roots s) :
    s.arena.edgeCount + sources.length = s.arena.size + (sources.map (·.links)).sum := by
  induction h with
  | new => rfl
  | @load sources _ s text a _ _ hload ih =>
      obtain ⟨d, htext, hd⟩ := Arena.exists_document_of_load hload
      obtain ⟨rfl, hloaded⟩ := Document.loaded_of_load hd
      have hgrown := (Document.annexed_load d s.arena).grown
      rw [hd] at hgrown
      have hedges := hloaded.edgeCount hgrown
      have hlinks : (Source.mk ⟨⟨s.arena.size⟩, a.size⟩ text).links = d.entry.links.length := by
        simp only [Source.links, htext]
      show a.edgeCount + _ = a.size + _
      rw [List.map_append, List.sum_append, List.length_append, List.map_singleton,
        List.sum_singleton, hlinks, List.length_singleton, hloaded.size]
      omega
  | add _ hadd ih =>
      obtain ⟨d, hadd⟩ := addition_of_addDocument hadd
      rw [hadd.arena]
      exact ih

/-- A document that was loaded can be added at any time. -/
theorem Gathered.exists_addDocument (h : Gathered builtins dedup sources roots s) {d : Source}
    (hd : d ∈ sources) : ∃ s', s.addDocument d.root = .ok s' := by
  have hlaidOut := h.assembled.laidOut
  have hroot := hlaidOut.valid d.toSpan (List.mem_map_of_mem hd)
  obtain ⟨e, he⟩ := Arena.valid_iff.mp (Nat.lt_of_lt_of_le hroot.1 hroot.2)
  exact Session.exists_addDocument he (hlaidOut.closed e (Arena.mem_nodes he))

/-- **A walk covers each document in its own context.**  If texts are loaded and
each document is added once, then a walk with a visitor that refuses nothing
succeeds.  It calls the visitor once on each declaration that is not a root,
in the name of the root of its document and with the registry of the namespace
of that document.  Those that are processed are all declarations but the roots,
and the edges that are skipped are as many as there are links in the texts. -/
theorem walkAll_covers (h : Gathered builtins dedup sources roots s)
    (honce : roots.Perm (sources.map (·.root))) {σ : Type} (visit : Visitor σ)
    (haccept : visit.Accepts) (state : σ) :
    ∃ (after : Session) (final : σ) (log : List Call) (tally : Tally),
      s.walkAll visit state = (after, final, .ok tally) ∧
      s.walkAll visit.logged (state, []) = (after, (final, log), .ok tally) ∧
      (∀ id, (log.map (·.node)).count id = if s.arena.Valid id ∧ id ∉ roots then 1 else 0) ∧
      (∀ c ∈ log, ∃ d ∈ sources, d.Inner c.node ∧ c.root = d.root ∧
        ∃ e, s.arena.get? d.root = some e ∧
          s.registries.get? (Registry.targetSpaceOf e) = some c.registry) ∧
      tally.processed + sources.length = s.arena.size ∧
      tally.skipped = (sources.map (·.links)).sum := by
  have hcomplete : s.Complete (sources.map (·.toSpan)) roots :=
    h.assembled.complete (by rw [List.map_map]; exact honce)
  have hcover : ∀ id, s.arena.Valid id → ∃ d ∈ sources.map (·.toSpan), d.Has id := by
    intro id hid
    obtain ⟨d, hd, hhas⟩ := h.exists_has hid
    exact ⟨_, List.mem_map_of_mem hd, hhas⟩
  obtain ⟨w, hfollow, -⟩ := follow_accepting hcomplete.rooted hcomplete.laidOut.closed
    (fun _ hr => hr) haccept state
  have hwalk : s.walkAll visit state = ({ s with arena := w.arena }, w.state, .ok w.tally) := by
    rw [walkAll_eq_follow, itinerary, hfollow]
    rfl
  have hprocessed := processed_follow hfollow
  have htally := tally_follow hfollow
  have hevents := hcomplete.length_itinerary hcover
  have hedges := h.edgeCount
  have hlength := (hcomplete.perm_ids hcover).length_eq
  rw [List.length_append, called, List.length_map, Arena.length_ids, honce.length_eq,
    List.length_map] at hlength
  rw [← itinerary] at hprocessed htally
  simp only [Nat.zero_add] at hprocessed htally
  refine ⟨_, w.state, calls s.itinerary, w.tally, hwalk, walkAll_logged hwalk, ?_, ?_, ?_, ?_⟩
  · intro id
    have hnodup : (called s.itinerary).Nodup := nodup_called_route _ _
    rw [← called, hnodup.count]
    simp only [hcomplete.mem_called_iff hcover]
  · intro c hc
    obtain ⟨p, hp, hroot, hinner⟩ := hcomplete.root_of_mem_calls hc
    obtain ⟨d, hd, rfl⟩ := List.mem_map.mp hp
    obtain ⟨e, he, hregistry⟩ := hcomplete.registry_of_mem_calls hc
    rw [hroot] at he
    exact ⟨d, hd, hinner, hroot, e, he, hregistry⟩
  · omega
  · omega

end

/-! Two documents of different namespaces, the second loaded after the first was
added.  In both, a declaration is reached by a link before its own edge. -/

def forwardText : String :=
  "\x7b\"kind\":\"schema\",\"namespace\":\"urn:b\",\"children\":[\x7b\"link\":\"e\"\x7d," ++
  "\x7b\"kind\":\"element\",\"name\":\"e\",\"anchor\":\"e\"\x7d]\x7d"

def forwardArena : Arena where
  nodes := #[
    { kind := .schema, space := "", children := [⟨1⟩, ⟨1⟩] },
    { kind := .group, space := "", children := [⟨1⟩, ⟨0⟩] },
    { kind := .schema, space := "urn:b", children := [⟨3⟩, ⟨3⟩] },
    { kind := .element, name := some "e", space := "urn:b" }]

def cyclicSession : Session :=
  ((({ arena := Document.cyclicArena } : Session).addDocument ⟨0⟩).toOption).getD {}

def forwardSession : Session :=
  ((({ cyclicSession with arena := forwardArena }).addDocument ⟨2⟩).toOption).getD {}

theorem load_forwardText : cyclicSession.arena.load forwardText = (forwardArena, .ok ⟨2⟩) := by
  decide +kernel

theorem gathered_forwardSession :
    Gathered .xsd true [⟨⟨⟨0⟩, 2⟩, Document.cyclicText⟩, ⟨⟨⟨2⟩, 4⟩, forwardText⟩] [⟨0⟩, ⟨2⟩]
      forwardSession := by
  have hfirst : ({ arena := Document.cyclicArena } : Session).addDocument ⟨0⟩ =
      .ok cyclicSession := rfl
  have hsecond : ({ cyclicSession with arena := forwardArena }).addDocument ⟨2⟩ =
      .ok forwardSession := rfl
  exact (((Gathered.new.load Document.load_cyclicText).add hfirst).load load_forwardText).add hsecond

/-- Both declarations that are not roots are called, and four edges skipped. -/
theorem walkAll_covers_forward : ∃ sources roots,
    Gathered .xsd true sources roots forwardSession ∧ roots.Perm (sources.map (·.root)) ∧
      counting.Accepts ∧
      ∃ (after : Session) (final : Nat) (log : List Call) (tally : Tally),
        forwardSession.walkAll counting.logged (0, []) = (after, (final, log), .ok tally) ∧
        (log.map (·.node)).count ⟨1⟩ = 1 ∧ tally.processed = 2 ∧ tally.skipped = 4 := by
  have haccept : counting.Accepts := fun _ _ _ => rfl
  obtain ⟨after, final, log, tally, -, hlogged, hcount, -, hprocessed, hskipped⟩ :=
    walkAll_covers gathered_forwardSession (.refl _) counting haccept 0
  refine ⟨_, _, gathered_forwardSession, .refl _, haccept, after, final, log, tally, hlogged,
    ?_, ?_, ?_⟩
  · rw [hcount]
    decide
  · have hsize : forwardSession.arena.size = 4 := rfl
    simp only [List.length_cons, List.length_nil, hsize] at hprocessed
    omega
  · rw [hskipped]
    decide +kernel

end Session

end SchemaCatalog
