import SchemaCatalog.Files.Tree

/-!
# SchemaCatalog.Proofs.Files.Writing

What writing a file changes.  The path that was written leads to the new
content (`find?_of_write`), and every other path leads to what it led to before
or, if it is another name of the same file, to the new content as well
(`find?_of_write_or`).  The reason is that no directory is replaced and nothing
lies below a file: no way through the tree is closed, and none is opened except
the one that ends at the file.
-/

namespace SchemaCatalog.Files.Tree

variable {t : Tree} {place : Place} {content : ByteArray}

/-! ## Putting a file where no directory stands -/

theorem get?_put_self (h : t.get? place ≠ some .directory) (node : Node) :
    (t.put place node).get? place = some node := by
  have hnamed : ¬ place.all (· = "..") := fun hall => h (if_pos hall)
  rw [get?, if_neg hnamed, put, Table.get?_insert_self]

/-- Writing a node changes no other place. -/
theorem get?_put_of_ne {q : Place} (h : q ≠ place) (node : Node) :
    (t.put place node).get? q = t.get? q := by
  rw [get?, get?, put, Table.get?_insert_of_ne _ _ h]

section

variable {p q next : Place} {name : String} {names : List String}

/-- What a step does: it stays, or it goes to a place where something is. -/
theorem step_eq_ok_iff :
    t.step p name = .ok next ↔ t.get? p = some .directory ∧
      if name = "" || name = "." then p = next
      else name.utf8ByteSize ≤ maxName ∧ (t.get? next).isSome ∧
        (if name = ".." then above p else p ++ [name]) = next := by
  unfold step
  cases hp : t.get? p with
  | none => simp
  | some node =>
      cases node with
      | file => simp
      | directory =>
          by_cases hstay : (decide (name = "") || decide (name = ".")) = true
          · simp only [if_pos hstay, Except.ok.injEq, true_and]
          · by_cases hsize : maxName < name.utf8ByteSize
            · simp only [if_neg hstay, if_pos hsize, Nat.not_le_of_lt hsize, reduceCtorEq, false_and,
                and_false]
            · simp only [if_neg hstay, if_neg hsize, Nat.le_of_not_lt hsize, true_and]
              cases hnext : t.get? (if name = ".." then above p else p ++ [name]) with
              | none =>
                  simp only [reduceCtorEq, false_iff, not_and]
                  rintro hsome rfl
                  simp [hnext] at hsome
              | some node =>
                  simp only [Except.ok.injEq, iff_and_self]
                  rintro rfl
                  simp [hnext]

/-- Steps are taken from directories only. -/
theorem directory_of_step (h : t.step p name = .ok next) : t.get? p = some .directory :=
  (step_eq_ok_iff.mp h).1

/-- A step leads to something. -/
theorem isSome_of_step (h : t.step p name = .ok next) : (t.get? next).isSome := by
  obtain ⟨hp, hstep⟩ := step_eq_ok_iff.mp h
  split at hstep
  · rw [← hstep, hp]
    rfl
  · exact hstep.2.1

/-- A step between places where two trees agree is the same in both. -/
theorem step_congr {t' : Tree} (h : t.step p name = .ok next) (hp : t'.get? p = t.get? p)
    (hnext : (t'.get? next).isSome) : t'.step p name = .ok next := by
  rw [step_eq_ok_iff] at h ⊢
  rw [hp]
  refine ⟨h.1, ?_⟩
  have hstep := h.2
  split
  · rwa [if_pos ‹_›] at hstep
  · rw [if_neg ‹_›] at hstep
    exact ⟨hstep.1, hnext, hstep.2.2⟩

/-- Where steps led to before, they still lead to. -/
theorem follow_put (hfree : t.get? place ≠ some .directory) (h : t.follow p names = .ok q) :
    (t.put place (.file content)).follow p names = .ok q := by
  have hstart {r next : Place} {name : String} (hr : t.step r name = .ok next) : r ≠ place := by
    rintro rfl
    exact hfree (directory_of_step hr)
  induction names generalizing p with
  | nil => exact h
  | cons name rest ih =>
      unfold follow at h ⊢
      split at h
      · contradiction
      · next next hstep =>
          have hsome : ((t.put place (.file content)).get? next).isSome := by
            by_cases hnext : next = place
            · rw [hnext, get?_put_self hfree]
              rfl
            · rw [get?_put_of_ne hnext]
              exact isSome_of_step hstep
          rw [step_congr hstep (get?_put_of_ne (hstart hstep) _) hsome]
          exact ih h

/-- Where steps lead to, they led to before, or they lead to the file that was
put. -/
theorem of_follow_put (hfree : t.get? place ≠ some .directory)
    (h : (t.put place (.file content)).follow p names = .ok q) :
    q = place ∨ t.follow p names = .ok q := by
  have hfile := get?_put_self hfree (.file content)
  have hstart {r next : Place} {name : String}
      (hr : (t.put place (.file content)).step r name = .ok next) : r ≠ place := by
    rintro rfl
    simp [directory_of_step hr] at hfile
  induction names generalizing p with
  | nil => exact .inr h
  | cons name rest ih =>
      unfold follow at h
      split at h
      · contradiction
      · next next hstep =>
          by_cases hnext : next = place
          -- No step starts at a file, so it can only be where the path ends.
          · cases rest with
            | nil =>
                cases h
                exact .inl hnext
            | cons name' rest =>
                unfold follow at h
                split at h
                · contradiction
                · exact absurd hnext (hstart ‹_›)
          · have hsome := isSome_of_step hstep
            rw [get?_put_of_ne hnext] at hsome
            have hsame := step_congr hstep (get?_put_of_ne (hstart hstep) _).symm hsome
            refine (ih h).imp_right fun hrest => ?_
            rw [follow, hsame]
            exact hrest

end

/-- A path that resolves still does so after a file is put where no directory is. -/
theorem resolve_put (hfree : t.get? place ≠ some .directory) {path : String} {q : Place}
    (h : t.resolve path = .ok q) : (t.put place (.file content)).resolve path = .ok q := by
  unfold resolve at h ⊢
  split at h
  · contradiction
  · exact follow_put hfree h

/-- A path that resolves after a file is put leads to the file, or did resolve before. -/
theorem of_resolve_put (hfree : t.get? place ≠ some .directory) {path : String} {q : Place}
    (h : (t.put place (.file content)).resolve path = .ok q) :
    q = place ∨ t.resolve path = .ok q := by
  unfold resolve at h ⊢
  split at h
  · contradiction
  · exact of_follow_put hfree h

/-! ## Writing -/

/-- What the place of a file that can be written is like. -/
structure Accepts (t : Tree) (path : String) (place : Place) : Prop where
  noFault : pathFault? path = none
  free : t.get? place ≠ some .directory
  /-- The place lies in a directory that the path leads to. -/
  reached : ∃ parents last parent, components path = parents ++ [last] ∧
    place = parent ++ [last] ∧ last ≠ "" ∧ last ≠ "." ∧ last ≠ ".." ∧
    last.utf8ByteSize ≤ maxName ∧ t.follow (origin path) parents = .ok parent ∧
    t.get? parent = some .directory

/-- A path that can be written to leads to a place that takes a file. -/
theorem accepts_of_writable {path : String} (h : t.writable path = .ok place) :
    t.Accepts path place := by
  unfold writable at h
  split at h
  · contradiction
  rename_i hfault
  dsimp only at h
  split at h
  · contradiction
  rename_i last parents hlast
  split at h
  · contradiction
  rename_i parent hparent
  split at h
  · split at h <;> contradiction
  rename_i hdots
  split at h
  · contradiction
  · contradiction
  rename_i hdirectory
  split at h
  · contradiction
  rename_i hsize
  split at h
  · contradiction
  rename_i hend
  cases h
  simp only [Bool.or_eq_true, decide_eq_true_eq, not_or] at hdots hend
  -- The path does not end in a slash, so its last name is the last component.
  have hback : (components path).reverse = last :: parents := by
    cases hparts : (components path).reverse with
    | nil => simp [hparts] at hlast
    | cons head rest =>
        have hhead : head ≠ "" := by simpa [hparts] using hend.1
        simpa [hparts, hhead] using hlast
  have hname : last ≠ "" := by simpa [hback] using hend.1
  have hparts : components path = parents.reverse ++ [last] := by
    rw [← List.reverse_reverse (components path), hback, List.reverse_cons]
  have hfree : t.get? (parent ++ [last]) ≠ some .directory := by
    intro hdir
    simp [hdir, Node.isDirectory] at hend
  exact ⟨hfault, hfree, parents.reverse, last, parent, hparts, rfl, hname, hdots.1, hdots.2,
    Nat.le_of_not_lt hsize, hparent, hdirectory⟩

/-- Names are followed one part after the other. -/
theorem follow_append {p q r : Place} {names more : List String}
    (h : t.follow p names = .ok q) (hmore : t.follow q more = .ok r) :
    t.follow p (names ++ more) = .ok r := by
  induction names generalizing p with
  | nil =>
      cases h
      exact hmore
  | cons name rest ih =>
      rw [List.cons_append]
      unfold follow at h ⊢
      split at h
      · contradiction
      · next hstep => exact ih h

section

variable {t' : Tree} {path text : String}

/-- A write that succeeds puts the bytes of the text at a place that takes them. -/
theorem write_eq_ok (h : t.write path text = .ok t') :
    ∃ place, t.Accepts path place ∧ t' = t.put place (.file text.toUTF8) := by
  unfold write at h
  cases hplace : t.writable path with
  | error f => simp [hplace, Except.map] at h
  | ok place =>
      rw [hplace, Except.map] at h
      cases h
      exact ⟨place, accepts_of_writable hplace, rfl⟩

/-- A path finds the node at the place it resolves to. -/
theorem find?_eq_some_iff {q : String} {node : Node} :
    t.find? q = some node ↔ ∃ r, t.resolve q = .ok r ∧ t.get? r = some node := by
  unfold find?
  cases t.resolve q <;> simp

/-- Once the file is put, the path resolves to it. -/
theorem Accepts.resolve_put (h : t.Accepts path place) :
    (t.put place (.file content)).resolve path = .ok place := by
  obtain ⟨hfault, hfree, parents, last, parent, hparts, rfl, hname, hdot, hdots, hsize, hparent,
    hdirectory⟩ := h
  have hstep : (t.put (parent ++ [last]) (.file content)).step parent last =
      .ok (parent ++ [last]) := by
    rw [step_eq_ok_iff, get?_put_of_ne (by simp), get?_put_self hfree]
    simp [hname, hdot, hdots, hsize, hdirectory]
  have hlast : (t.put (parent ++ [last]) (.file content)).follow parent [last] =
      .ok (parent ++ [last]) := by
    rw [follow, hstep]
    rfl
  rw [resolve, hfault]
  dsimp only
  rw [hparts, follow_append (follow_put hfree hparent) hlast]

/-- **The path that was written leads to the new content.** -/
theorem find?_of_write (h : t.write path text = .ok t') :
    t'.find? path = some (.file text.toUTF8) := by
  obtain ⟨place, haccepts, rfl⟩ := write_eq_ok h
  exact find?_eq_some_iff.mpr ⟨place, haccepts.resolve_put, get?_put_self haccepts.free _⟩

/-- **Writing changes nothing but one file.**  What a path leads to is the new
content, or it was there before and is not the file that was written. -/
theorem find?_of_write_or (h : t.write path text = .ok t') {q : String} {node : Node}
    (hq : t'.find? q = some node) :
    node = .file text.toUTF8 ∨ t.find? q = some node ∧ t.resolve q ≠ t.resolve path := by
  obtain ⟨place, haccepts, rfl⟩ := write_eq_ok h
  obtain ⟨r, hr, hnode⟩ := find?_eq_some_iff.mp hq
  by_cases hplace : r = place
  · rw [hplace, get?_put_self haccepts.free] at hnode
    exact .inl (Option.some.inj hnode).symm
  · have hbefore := (of_resolve_put haccepts.free hr).resolve_left hplace
    rw [get?_put_of_ne hplace] at hnode
    refine .inr ⟨find?_eq_some_iff.mpr ⟨r, hbefore, hnode⟩, fun hsame => hplace ?_⟩
    have hpath : (t.put place (.file text.toUTF8)).resolve path = .ok r :=
      resolve_put haccepts.free (hsame ▸ hbefore)
    rw [haccepts.resolve_put] at hpath
    exact (Except.ok.inj hpath).symm

/-- What was a file is still one. -/
theorem isFile_of_write (h : t.write path text = .ok t') {q : String} (hq : t.isFile q) :
    t'.isFile q := by
  obtain ⟨place, haccepts, rfl⟩ := write_eq_ok h
  unfold isFile at hq ⊢
  obtain ⟨node, hnode, hfile⟩ := (Option.any_eq_true _ _).mp hq
  obtain ⟨r, hr, hget⟩ := find?_eq_some_iff.mp hnode
  have hafter : (t.put place (.file text.toUTF8)).resolve q = .ok r :=
    resolve_put haccepts.free hr
  rw [Option.any_eq_true]
  by_cases hplace : r = place
  · subst hplace
    exact ⟨_, find?_eq_some_iff.mpr ⟨r, hafter, get?_put_self haccepts.free _⟩, rfl⟩
  · exact ⟨node, find?_eq_some_iff.mpr ⟨r, hafter, by rw [get?_put_of_ne hplace, hget]⟩, hfile⟩

end

end SchemaCatalog.Files.Tree
