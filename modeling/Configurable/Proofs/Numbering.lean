import Configurable.Toml.Document
import Mathlib.Data.List.Perm.Basic
import Mathlib.Data.List.Range

/-!
# The numbers of nodes

The nodes of a document are numbered by a counter that is passed along while the tree is made.
Whatever is made between two values of the counter has exactly the numbers between them
(`Numbered`), so what is made one after the other has different numbers. A document's nodes are
made in one go, which is all that has to be known to tell them apart (`nodup_ids_of_parse`).
-/

namespace Configurable.Toml

/-- These are the numbers from `first` on, up to but without `next`, in some order. -/
structure Numbered (ids : List Nat) (first next : Nat) : Prop where
  le : first ≤ next
  perm : ids.Perm (List.range' first (next - first))

namespace Numbered

variable {ids ids' : List Nat} {i j k : Nat}

theorem nil (i : Nat) : Numbered [] i i := ⟨Nat.le_refl i, by simp⟩

theorem append (h : Numbered ids i j) (h' : Numbered ids' j k) : Numbered (ids ++ ids') i k := by
  have hij := h.le
  have hjk := h'.le
  have hsum : j - i + (k - j) = k - i := by omega
  have hstart : i + (j - i) = j := by omega
  have hrange : List.range' i (j - i) ++ List.range' j (k - j) = List.range' i (k - i) := by
    have := List.range'_append_1 (s := i) (m := j - i) (n := k - j)
    rwa [hstart, hsum] at this
  refine ⟨Nat.le_trans hij hjk, ?_⟩
  rw [← hrange]
  exact h.perm.append h'.perm

/-- A node gets the number behind those of what it contains. -/
theorem node (h : Numbered ids i j) : Numbered (j :: ids) i (j + 1) := by
  have hself : Numbered [j] j (j + 1) := ⟨by omega, by simp⟩
  have hboth := h.append hself
  exact ⟨hboth.le, (List.perm_append_singleton j ids).symm.trans hboth.perm⟩

theorem nodup (h : Numbered ids i j) : ids.Nodup := h.perm.nodup_iff.mpr List.nodup_range'

theorem lt {id : Nat} (h : Numbered ids i j) (hid : id ∈ ids) : id < j := by
  have hle := h.le
  have hrange := List.mem_range'_1.mp (h.perm.mem_iff.mp hid)
  omega

end Numbered

/-! ## What is written -/

mutual

theorem Literal.numbered_toNode : ∀ (l : Literal) (next : Nat),
    Numbered (l.toNode next).1.ids next (l.toNode next).2
  | .scalar _ _, next => (Numbered.nil next).node
  | .array _ items, next => (Literal.numbered_toNodes items next).node
  | .inline _ entries, next => (Literal.numbered_toEntries entries next).node

theorem Literal.numbered_toNodes : ∀ (ls : List Literal) (next : Nat),
    Numbered (Node.idsOfItems (Literal.toNodes ls next).1) next (Literal.toNodes ls next).2
  | [], next => .nil next
  | l :: ls, next => (l.numbered_toNode next).append (Literal.numbered_toNodes ls _)

theorem Literal.numbered_toEntries : ∀ (ls : List (Key × Literal)) (next : Nat),
    Numbered (Node.idsOfEntries (Literal.toEntries ls next).1) next (Literal.toEntries ls next).2
  | [], next => .nil next
  | (_, l) :: ls, next => (l.numbered_toNode next).append (Literal.numbered_toEntries ls _)

end

mutual

theorem Item.numbered_toEntry : ∀ (key : Key) (item : Item) (next : Nat),
    Numbered (Item.toEntry key item next).1.node.ids next (Item.toEntry key item next).2
  | _, .literal value, next => value.numbered_toNode next
  | _, .table ⟨_, entries⟩, next => (Item.numbered_toEntries entries next).node
  | _, .tables rows, next => (Item.numbered_toRows rows next).node

theorem Item.numbered_toEntries : ∀ (items : List (Key × Item)) (next : Nat),
    Numbered (Node.idsOfEntries (Item.toEntries items next).1) next (Item.toEntries items next).2
  | [], next => .nil next
  | (key, item) :: items, next =>
      (Item.numbered_toEntry key item next).append (Item.numbered_toEntries items _)

theorem Item.numbered_toRows : ∀ (rows : List (TableOf Item)) (next : Nat),
    Numbered (Node.idsOfItems (Item.toRows rows next).1) next (Item.toRows rows next).2
  | [], next => .nil next
  | ⟨_, entries⟩ :: rows, next =>
      (Item.numbered_toEntries entries next).node.append (Item.numbered_toRows rows _)

end

/-! ## Documents -/

/-- The nodes of a document have the numbers below its node count. -/
theorem Document.numbered_of_parse {source : Text.Named} {d : Document}
    (h : Document.parse source = .ok d) : Numbered d.root.ids 0 d.nodeCount := by
  unfold parse at h
  split at h
  · cases h
  · next table _ =>
    obtain rfl := Except.ok.inj h
    exact (Item.numbered_toEntries table.entries 0).node

theorem Document.nodup_ids_of_parse {source : Text.Named} {d : Document}
    (h : Document.parse source = .ok d) : d.root.ids.Nodup := (numbered_of_parse h).nodup

end Configurable.Toml
