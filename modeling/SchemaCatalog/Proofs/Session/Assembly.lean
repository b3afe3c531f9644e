import SchemaCatalog.Proofs.Fragment.Linking
import SchemaCatalog.Proofs.Session.LastWins

/-!
# SchemaCatalog.Proofs.Session.Assembly

Sessions made of loaded documents.  Such a session starts empty; texts are
loaded, well or not, and documents are added, in any order and nothing else is
done (`Assembled`).  Every document then takes up a range of places, its
`Span`, and the arena falls apart into these ranges: no edge leaves one, and
within one everything can be reached from the root (`Assembled.laidOut`).
-/

namespace SchemaCatalog

open Relation (ReflTransGen TransGen)

/-- The places of a document: its root comes first. -/
structure Span where
  root : NodeId
  /-- The first place behind the document. -/
  stop : Nat

namespace Span

/-- The declaration belongs to the document. -/
def Has (d : Span) (id : NodeId) : Prop := d.root.index ≤ id.index ∧ id.index < d.stop

def Inner (d : Span) (id : NodeId) : Prop := d.root.index < id.index ∧ id.index < d.stop

/-- The inner nodes of a document are those that are not its root. -/
theorem inner_iff {d : Span} {id : NodeId} : d.Inner id ↔ d.Has id ∧ id ≠ d.root := by
  rw [Inner, Has]
  constructor
  · rintro ⟨hlow, hhigh⟩
    refine ⟨⟨Nat.le_of_lt hlow, hhigh⟩, ?_⟩
    rintro rfl
    exact Nat.lt_irrefl _ hlow
  · rintro ⟨⟨hlow, hhigh⟩, hne⟩
    have hindex : id.index ≠ d.root.index := fun h => hne (by cases id; cases hr : d.root; simp_all)
    omega

end Span

namespace Session

/-- The session is made of documents that were loaded, at the given spans, and
of those among them that were added, given by their roots. -/
inductive Assembled (builtins : Builtins) (dedup : Bool) :
    List Span → List NodeId → Session → Prop
  | new : Assembled builtins dedup [] [] { builtins, dedup }
  | load {documents : List Span} {roots : List NodeId} {s : Session} {text : String} {a : Arena}
    {root : NodeId} (h : Assembled builtins dedup documents roots s)
    (hload : s.arena.load text = (a, .ok root)) :
    Assembled builtins dedup (documents ++ [⟨root, a.size⟩]) roots { s with arena := a }
  /-- What a text that does not load leaves behind belongs to no document. -/
  | fail {documents : List Span} {roots : List NodeId} {s : Session} {text : String} {a : Arena}
    {e : Error} (h : Assembled builtins dedup documents roots s)
    (hload : s.arena.load text = (a, .error e)) :
    Assembled builtins dedup documents roots { s with arena := a }
  | add {documents : List Span} {roots : List NodeId} {s s' : Session} {root : NodeId}
    (h : Assembled builtins dedup documents roots s) (hadd : s.addDocument root = .ok s') :
    Assembled builtins dedup documents (roots ++ [root]) s'

/-- An assembled session has had each of its documents added. -/
theorem Assembled.adds {builtins : Builtins} {dedup : Bool} {documents : List Span}
    {roots : List NodeId} {s : Session} (h : Assembled builtins dedup documents roots s) :
    Adds { builtins, dedup } roots s := by
  induction h with
  | new => exact .start
  | @load _ _ s text a _ _ hload ih =>
      have hannexed := Arena.annexed_load s.arena text
      rw [hload] at hannexed
      exact ih.grow a hannexed.grown
  | @fail _ _ s text a _ _ hload ih =>
      have hannexed := Arena.annexed_load s.arena text
      rw [hload] at hannexed
      exact ih.grow a hannexed.grown
  | add _ hadd ih => exact ih.add hadd

/-! ## how documents lie in the arena -/

/-- The documents lie apart in the arena; nothing leads out of one, and its
root leads to all of it. -/
structure LaidOut (a : Arena) (documents : List Span) : Prop where
  closed : a.Closed
  unprocessed : a.Unprocessed
  valid : ∀ d ∈ documents, d.root.index < d.stop ∧ d.stop ≤ a.size
  apart : documents.Pairwise fun d e => d.stop ≤ e.root.index
  stays : ∀ d ∈ documents, ∀ p c, d.Has p → a.Edge p c → d.Has c
  reaches : ∀ d ∈ documents, ∀ id, d.Has id → ReflTransGen a.Edge d.root id

section

variable {a b : Arena} {documents : List Span}

/-- The nodes of a document that is laid out are in the arena. -/
theorem LaidOut.valid_of_has (h : LaidOut a documents) {d : Span} (hd : d ∈ documents)
    {id : NodeId} (hid : d.Has id) : a.Valid id :=
  Nat.lt_of_lt_of_le hid.2 (h.valid d hd).2

/-- Documents stay laid out as the arena is annexed to. -/
theorem LaidOut.annex (h : LaidOut a documents) (hb : Arena.Annexed a b) :
    LaidOut b documents where
  closed := hb.closed h.closed
  unprocessed := hb.unprocessed h.unprocessed
  valid := fun d hd => ⟨(h.valid d hd).1, Nat.le_trans (h.valid d hd).2 hb.grown.size_le⟩
  apart := h.apart
  stays := fun d hd p c hp hpc =>
    h.stays d hd p c hp ((hb.grown.edge_iff (h.valid_of_has hd hp)).mp hpc)
  reaches := fun d hd id hid =>
    ReflTransGen.mono (fun _ _ => hb.grown.edge) _ _ (h.reaches d hd id hid)

/-- A loaded document lies behind the others. -/
theorem LaidOut.load (h : LaidOut a documents) {text : String} {root : NodeId}
    (hload : a.load text = (b, .ok root)) : LaidOut b (documents ++ [⟨root, b.size⟩]) := by
  have hannexed := Arena.annexed_load a text
  rw [hload] at hannexed
  obtain ⟨d, -, hd⟩ := Arena.exists_document_of_load hload
  obtain ⟨rfl, hloaded⟩ := Document.loaded_of_load hd
  have hsize : a.size < b.size := by
    have hpos : 0 < d.entry.size := by
      rw [Document.entry, Fragment.size]
      omega
    rw [hloaded.size]
    omega
  obtain ⟨hclosed, hunprocessed, hvalid, hapart, hstays, hreaches⟩ := h.annex hannexed
  refine ⟨hclosed, hunprocessed, ?_, ?_, ?_, ?_⟩
  · exact List.forall_mem_append.mpr ⟨hvalid, by simp [hsize]⟩
  · rw [List.pairwise_append]
    refine ⟨hapart, List.pairwise_singleton _ _, ?_⟩
    intro e he e' he'
    rw [List.mem_singleton.mp he']
    exact (h.valid e he).2
  · refine List.forall_mem_append.mpr ⟨hstays, ?_⟩
    intro e he p c hp hpc
    rw [List.mem_singleton.mp he] at hp ⊢
    obtain ⟨hnew, hc⟩ := hannexed.inner p c (Nat.not_lt.mpr hp.1) hpc
    exact ⟨Nat.le_of_not_lt hnew, hc⟩
  · refine List.forall_mem_append.mpr ⟨hreaches, ?_⟩
    intro e he id hid
    rw [List.mem_singleton.mp he] at hid ⊢
    exact Document.reaches_of_load hd (Nat.not_lt.mpr hid.1) hid.2

/-- A declaration belongs to one document at most. -/
theorem LaidOut.eq_of_has (h : LaidOut a documents) {d e : Span} (hd : d ∈ documents)
    (he : e ∈ documents) {id : NodeId} (hdid : d.Has id) (heid : e.Has id) : d = e := by
  have hboth : ∀ x ∈ documents, ∀ y ∈ documents, x.Has id → y.Has id → x = y := by
    refine List.Pairwise.forall_of_forall_of_flip (fun _ _ _ _ => rfl) ?_ ?_
    · refine h.apart.imp ?_
      rintro x y hxy ⟨-, hx⟩ ⟨hy, -⟩
      omega
    · refine h.apart.imp ?_
      rintro x y hxy ⟨hy, -⟩ ⟨-, hx⟩
      omega
  exact hboth d hd e he hdid heid

end

/-- The documents of an assembled session are laid out in its arena. -/
theorem Assembled.laidOut {builtins : Builtins} {dedup : Bool} {documents : List Span}
    {roots : List NodeId} {s : Session} (h : Assembled builtins dedup documents roots s) :
    LaidOut s.arena documents := by
  induction h with
  | new =>
      refine ⟨?_, ?_, ?_, .nil, ?_, ?_⟩
      all_goals
        intro d hd
        contradiction
  | load _ hload ih => exact ih.load hload
  | @fail _ _ s text a _ _ hload ih =>
      have hannexed := Arena.annexed_load s.arena text
      rw [hload] at hannexed
      exact ih.annex hannexed
  | add _ hadd ih =>
      obtain ⟨d, hadd⟩ := addition_of_addDocument hadd
      rw [hadd.arena]
      exact ih

end Session

end SchemaCatalog
