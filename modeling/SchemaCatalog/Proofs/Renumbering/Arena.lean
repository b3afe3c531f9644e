import SchemaCatalog.Proofs.Arena

/-!
# SchemaCatalog.Proofs.Renumbering.Arena

Arenas that hold the same declarations under other numbers.  An arena *hosts*
another one if all declarations of that one stand in it in their order, at the
places that `f` gives them, and the next declaration comes last in both
(`Arena.Hosts`).  There may be declarations in between that the other arena
knows nothing about.

What is done to both arenas alike leaves one hosted by the other: a declaration is
added at the end (`Hosts.alloc`) or changed (`Hosts.modify`).  What only the
second arena gets raises the numbers that are still to come (`Hosts.leave`), if no
child of the first one waits for them.
-/

namespace SchemaCatalog

/-- The declaration with other numbers for its children. -/
def Declaration.renumber (f : NodeId → NodeId) (d : Declaration) : Declaration :=
  { d with children := d.children.map f }

def Error.renumber (f : NodeId → NodeId) : Error → Error
  | unknownNode id => unknownNode (f id)
  | unresolvedReference node attr name => unresolvedReference (f node) attr name
  | unknownPrefix node pfx => unknownPrefix (f node) pfx
  | invalidFragment defect => invalidFragment defect
  | unreadable fault => unreadable fault
  | notJson fault => notJson fault
  | badSettings => badSettings

/-- What comes of an operation, with other numbers in errors, and with `g` applied
to what is not an error. -/
def translate {α β : Type} (f : NodeId → NodeId) (g : α → β) :
    Except Error α → Except Error β
  | .ok x => .ok (g x)
  | .error e => .error (e.renumber f)

namespace Arena

/-! ## hosts -/

/-- The declarations of `a` stand in `b` in the same order, with `f` for their
numbers, and those to come follow at the end of either. -/
structure Hosts (f : NodeId → NodeId) (a b : Arena) : Prop where
  increasing : ∀ p q : NodeId, p.index < q.index → (f p).index < (f q).index
  get? : ∀ id, b.get? (f id) = (a.get? id).map (·.renumber f)
  next : ∀ k, f ⟨a.size + k⟩ = ⟨b.size + k⟩

section

variable {f : NodeId → NodeId} {a b : Arena}

theorem Hosts.refl (a : Arena) : Hosts id a a where
  increasing := fun _ _ h => h
  get? := by
    intro q
    have hsame : ∀ d : Declaration, d.renumber id = d := by
      intro d
      rw [Declaration.renumber, List.map_id]
    simp [hsame]
  next := fun _ => rfl

/-- A renumbering keeps the order of ids. -/
theorem Hosts.compare_eq (h : Hosts f a b) (p q : NodeId) : compare (f p) (f q) = compare p q := by
  show compare (f p).index (f q).index = compare p.index q.index
  rcases Nat.lt_trichotomy p.index q.index with hlt | heq | hgt
  · rw [Nat.compare_eq_lt.mpr hlt, Nat.compare_eq_lt.mpr (h.increasing p q hlt)]
  · rw [show p = q from congrArg NodeId.mk heq, Nat.compare_eq_eq.mpr rfl, Nat.compare_eq_eq.mpr rfl]
  · rw [Nat.compare_eq_gt.mpr hgt, Nat.compare_eq_gt.mpr (h.increasing q p hgt)]

/-- A renumbering never takes two ids to one. -/
theorem Hosts.injective (h : Hosts f a b) : Function.Injective f := by
  intro p q heq
  have hcompare := h.compare_eq p q
  have hself : compare (f q) (f q) = .eq := Std.ReflCmp.compare_self
  rw [heq, hself] at hcompare
  exact Std.LawfulEqCmp.eq_of_compare hcompare.symm

theorem Hosts.get?_eq_some (h : Hosts f a b) {id : NodeId} {d : Declaration}
    (hd : a.get? id = some d) : b.get? (f id) = some (d.renumber f) := by
  rw [h.get?, hd, Option.map_some]

theorem Hosts.get?_eq_none (h : Hosts f a b) {id : NodeId} (hid : a.get? id = none) :
    b.get? (f id) = none := by
  rw [h.get?, hid, Option.map_none]

/-- An id is valid exactly if its image is. -/
theorem Hosts.valid_iff (h : Hosts f a b) (id : NodeId) : b.Valid (f id) ↔ a.Valid id := by
  rw [Arena.valid_iff, Arena.valid_iff, h.get?]
  cases a.get? id with
  | none => simp
  | some d => simp

/-! ## changes to both -/

/-- A new declaration is hosted by its renumbered copy. -/
theorem Hosts.alloc (h : Hosts f a b) (d : Declaration) :
    Hosts f (a.alloc d).2 (b.alloc (d.renumber f)).2 where
  increasing := h.increasing
  get? := by
    intro id
    have hlast : (f id).index = b.size ↔ id.index = a.size := by
      have hnext : f ⟨a.size⟩ = ⟨b.size⟩ := h.next 0
      constructor
      · intro heq
        have hid : f id = f ⟨a.size⟩ := hnext.trans (congrArg NodeId.mk heq.symm) |>.symm
        exact congrArg NodeId.index (h.injective hid)
      · intro heq
        rw [show id = ⟨a.size⟩ from congrArg NodeId.mk heq, hnext]
    rw [get?_alloc, get?_alloc]
    by_cases hid : id.index = a.size
    · rw [if_pos hid, if_pos (hlast.mpr hid), Option.map_some]
    · rw [if_neg hid, if_neg (mt hlast.mp hid), h.get?]
  next := by
    intro k
    rw [size_alloc, size_alloc, Nat.add_assoc, Nat.add_assoc]
    exact h.next (1 + k)

/-- A declaration is changed in both. -/
theorem Hosts.modify (h : Hosts f a b) {g g' : Declaration → Declaration}
    (hg : ∀ d, g' (d.renumber f) = (g d).renumber f) (id : NodeId) :
    Hosts f (a.modify id g) (b.modify (f id) g') where
  increasing := h.increasing
  get? := by
    intro q
    rw [get?_modify, get?_modify, h.get?]
    by_cases hq : q = id
    · rw [if_pos hq, if_pos (congrArg f hq), Option.map_map, Option.map_map]
      exact congrArg (fun F => (a.get? q).map F) (funext hg)
    · rw [if_neg hq, if_neg (mt (fun heq => h.injective heq) hq)]
  next := by
    rw [size_modify, size_modify]
    exact h.next

/-- A new edge is hosted by its image. -/
theorem Hosts.link (h : Hosts f a b) (parent child : NodeId) :
    Hosts f (a.link parent child) (b.link (f parent) (f child)) := by
  refine h.modify (fun d => ?_) parent
  rw [Declaration.renumber, Declaration.renumber, List.map_append]
  rfl

theorem Hosts.markProcessed (h : Hosts f a b) (id : NodeId) :
    Hosts f (a.markProcessed id) (b.markProcessed (f id)) :=
  h.modify (g := fun d => { d with processed := true }) (fun _ => rfl) id

end

/-! ## declarations in between -/

/-- The numbers `f`, but from place `n` on there are `m` more declarations in
between. -/
def leaving (f : NodeId → NodeId) (n m : Nat) (id : NodeId) : NodeId :=
  if id.index < n then f id else ⟨(f id).index + m⟩

section

variable {f : NodeId → NodeId} {a b c : Arena}

/-- A declaration of the arena goes where it went before. -/
theorem leaving_of_valid {id : NodeId} (h : a.Valid id) (m : Nat) :
    leaving f a.size m id = f id :=
  if_pos h

/-- An id behind the arena makes room for the intruders. -/
theorem leaving_of_not_valid {id : NodeId} (h : ¬ a.Valid id) (m : Nat) :
    leaving f a.size m id = ⟨(f id).index + m⟩ :=
  if_neg h

/-- **What only one arena gets** raises the numbers still to come, if no child
waits for its declaration yet. -/
theorem Hosts.leave (h : Hosts f a b) (hclosed : a.Closed) (hbc : c.Extends b) :
    Hosts (leaving f a.size (c.size - b.size)) a c where
  increasing := by
    intro p q hlt
    have hf := h.increasing p q hlt
    rw [leaving, leaving]
    by_cases hq : q.index < a.size
    · rw [if_pos hq, if_pos (Nat.lt_trans hlt hq)]
      exact hf
    · rw [if_neg hq]
      split
      · exact Nat.lt_of_lt_of_le hf (Nat.le_add_right _ _)
      · exact Nat.add_lt_add_right hf _
  get? := by
    intro id
    by_cases hid : a.Valid id
    · obtain ⟨d, hd⟩ := Arena.valid_iff.mp hid
      have hchildren : d.renumber (leaving f a.size (c.size - b.size)) = d.renumber f := by
        rw [Declaration.renumber, Declaration.renumber]
        refine congrArg (fun children => { d with children }) (List.map_congr_left fun q hq => ?_)
        exact leaving_of_valid (hclosed d (mem_nodes hd) q hq) _
      rw [leaving_of_valid hid, hd, Option.map_some, hchildren, hbc _ _ (h.get?_eq_some hd)]
    · have hnext := h.next (id.index - a.size)
      have hplace : (⟨a.size + (id.index - a.size)⟩ : NodeId) = id :=
        congrArg NodeId.mk (Nat.add_sub_cancel' (Nat.le_of_not_lt hid))
      have hbehind : ¬ c.Valid ⟨(f id).index + (c.size - b.size)⟩ := by
        have hsize := hbc.size_le
        rw [← hplace, hnext]
        show ¬ b.size + (id.index - a.size) + (c.size - b.size) < c.size
        omega
      rw [leaving_of_not_valid hid, get?_eq_none_iff.mpr hid, get?_eq_none_iff.mpr hbehind]
      rfl
  next := by
    intro k
    have hsize := hbc.size_le
    have hbehind : ¬ a.Valid ⟨a.size + k⟩ := Nat.not_lt.mpr (Nat.le_add_right _ _)
    have hplace : b.size + k + (c.size - b.size) = c.size + k := by omega
    rw [leaving_of_not_valid hbehind, h.next]
    exact congrArg NodeId.mk hplace

end

end Arena

end SchemaCatalog
