import Configurable.Proofs.Numbering
import Configurable.Proofs.UnusedEntries

/-!
# Numbers identify nodes

Two places of a document may hold equal values, so a node is told from others by its address, the
way to it part by part (`at?`). A walk goes through the nodes in one order (`located`), and what is
there at an address is what the walk visits for it (`mem_located_iff`).

A node gets its number when its parts have theirs. So numbers fall on the way down (`Ascending`),
and since they are those below the node count (`numbered_of_parse`), they tell addresses apart. This
is what the use of entries rests on: it is kept by the numbers of nodes, and still a call uses what
stands at the addresses of its entries and nothing else (`Uses`).
-/

namespace Configurable

namespace Toml

namespace Node

/-! ## Addresses -/

/-- The nodes directly below a node. -/
def parts : Node → List Node
  | .scalar _ _ _ => []
  | .array _ _ items => items
  | .table _ _ entries => entries.map EntryOf.node

theorem getElem?_parts {n : Node} {i : Nat} {e : Entry} (h : n.entries[i]? = some e) :
    n.parts[i]? = some e.node := by
  cases n with
  | scalar id span value => cases h
  | array id span items => cases h
  | table id span entries =>
      show (entries.map EntryOf.node)[i]? = some e.node
      rw [List.getElem?_map, show entries[i]? = some e from h]
      rfl

/-- The node at an address, which says at each level which part to go to. -/
def at? : Node → (address : List Nat) → Option Node
  | n, [] => some n
  | n, i :: address => n.parts[i]?.bind (at? · address)

theorem at?_cons_eq_some_iff {n m : Node} {i : Nat} {address : List Nat} :
    n.at? (i :: address) = some m ↔ ∃ part, n.parts[i]? = some part ∧ part.at? address = some m :=
  Option.bind_eq_some_iff

theorem at?_append {below : List Nat} : ∀ (address : List Nat) {n : Node},
    n.at? (address ++ below) = (n.at? address).bind (at? · below)
  | [], _ => rfl
  | i :: address, n => by
      rw [List.cons_append, at?, at?, Option.bind_assoc]
      exact congrArg n.parts[i]?.bind (funext fun _ => at?_append address)

/-- A node with its address, seen from the node that it is part of. -/
def under (i : Nat) (x : List Nat × Node) : List Nat × Node := (i :: x.1, x.2)

mutual

/-- A node and all nodes below it in the order of a walk, with their addresses. -/
def located : Node → List (List Nat × Node)
  | .scalar id span value => [([], .scalar id span value)]
  | .array id span items => ([], .array id span items) :: locatedItems 0 items
  | .table id span entries => ([], .table id span entries) :: locatedEntries 0 entries

def locatedItems : Nat → List Node → List (List Nat × Node)
  | _, [] => []
  | i, n :: ns => n.located.map (under i) ++ locatedItems (i + 1) ns

def locatedEntries : Nat → List (EntryOf Node) → List (List Nat × Node)
  | _, [] => []
  | i, e :: es => e.node.located.map (under i) ++ locatedEntries (i + 1) es

end

theorem locatedEntries_eq : ∀ (es : List Entry) (i : Nat),
    locatedEntries i es = locatedItems i (es.map EntryOf.node)
  | [], _ => rfl
  | e :: es, i => congrArg (e.node.located.map (under i) ++ ·) (locatedEntries_eq es (i + 1))

theorem located_eq (n : Node) : n.located = ([], n) :: locatedItems 0 n.parts := by
  cases n with
  | scalar id span value => rfl
  | array id span items => rfl
  | table id span entries => exact congrArg (_ :: ·) (locatedEntries_eq entries 0)

theorem mem_locatedItems_iff {address : List Nat} {m : Node} : ∀ {ns : List Node} {i : Nat},
    (address, m) ∈ locatedItems i ns ↔ ∃ j below n,
      address = (i + j) :: below ∧ ns[j]? = some n ∧ (below, m) ∈ n.located
  | [], i => by simp [locatedItems]
  | n :: ns, i => by
      rw [locatedItems, List.mem_append, List.mem_map, mem_locatedItems_iff]
      constructor
      · rintro (⟨⟨below, m'⟩, hbelow, heq⟩ | ⟨j, below, n', rfl, hn', hbelow⟩)
        · obtain ⟨rfl, rfl⟩ := Prod.mk.inj heq
          exact ⟨0, below, n, rfl, rfl, hbelow⟩
        · exact ⟨j + 1, below, n', by rw [Nat.add_right_comm, Nat.add_assoc], hn', hbelow⟩
      · rintro ⟨j, below, n', rfl, hn', hbelow⟩
        cases j with
        | zero =>
            obtain rfl := Option.some.inj hn'
            exact Or.inl ⟨(below, m), hbelow, rfl⟩
        | succ j =>
            exact Or.inr ⟨j, below, n', by rw [Nat.add_right_comm, Nat.add_assoc], hn', hbelow⟩

/-- What is listed with an address is what stands there. -/
theorem mem_located_iff {m : Node} : ∀ {address : List Nat} {n : Node},
    (address, m) ∈ n.located ↔ n.at? address = some m
  | [], n => by
      rw [located_eq, List.mem_cons, mem_locatedItems_iff]
      simp [at?, eq_comm]
  | i :: address, n => by
      have ih (part : Node) : (address, m) ∈ part.located ↔ part.at? address = some m :=
        mem_located_iff
      rw [located_eq, List.mem_cons, mem_locatedItems_iff, at?_cons_eq_some_iff]
      simp [ih]

/-! ## Walks -/

section

variable {σ : Type} (visit : σ → Node → σ)

mutual

/-- A walk visits the nodes in the order in which they are listed, each as often as it is. -/
theorem walk_eq_foldl : ∀ (n : Node) (s : σ),
    n.walk visit s = (n.located.map Prod.snd).foldl visit s
  | .scalar _ _ _, _ => rfl
  | .array id span items, s => walkItems_eq_foldl items 0 (visit s (.array id span items))
  | .table id span entries, s => walkEntries_eq_foldl entries 0 (visit s (.table id span entries))

theorem walkItems_eq_foldl : ∀ (ns : List Node) (i : Nat) (s : σ),
    walkItems visit s ns = ((locatedItems i ns).map Prod.snd).foldl visit s
  | [], _, _ => rfl
  | n :: ns, i, s => by
      rw [walkItems, locatedItems, List.map_append, List.foldl_append, List.map_map,
        walkItems_eq_foldl ns (i + 1), walk_eq_foldl n]
      rfl

theorem walkEntries_eq_foldl : ∀ (es : List (EntryOf Node)) (i : Nat) (s : σ),
    walkEntries visit s es = ((locatedEntries i es).map Prod.snd).foldl visit s
  | [], _, _ => rfl
  | e :: es, i, s => by
      rw [walkEntries, locatedEntries, List.map_append, List.foldl_append, List.map_map,
        walkEntries_eq_foldl es (i + 1), walk_eq_foldl e.node]
      rfl

end

end

mutual

theorem ids_eq : ∀ n : Node, n.ids = n.located.map (·.2.id)
  | .scalar _ _ _ => rfl
  | .array id _ items => congrArg (id :: ·) (idsOfItems_eq items 0)
  | .table id _ entries => congrArg (id :: ·) (idsOfEntries_eq entries 0)

theorem idsOfItems_eq : ∀ (ns : List Node) (i : Nat),
    idsOfItems ns = (locatedItems i ns).map (·.2.id)
  | [], _ => rfl
  | n :: ns, i => by
      rw [idsOfItems, locatedItems, List.map_append, List.map_map, ids_eq n,
        idsOfItems_eq ns (i + 1)]
      rfl

theorem idsOfEntries_eq : ∀ (es : List (EntryOf Node)) (i : Nat),
    idsOfEntries es = (locatedEntries i es).map (·.2.id)
  | [], _ => rfl
  | e :: es, i => by
      rw [idsOfEntries, locatedEntries, List.map_append, List.map_map, ids_eq e.node,
        idsOfEntries_eq es (i + 1)]
      rfl

end

/-- The numbers of a tree are those that a walk comes across. -/
theorem walk_ids (n : Node) : n.walk (fun ids m => ids ++ [m.id]) [] = n.ids := by
  rw [walk_eq_foldl, ids_eq, List.foldl_map, List.foldl_append_eq_append, List.nil_append,
    ← List.flatMap_def, ← List.map_eq_flatMap]

/-! ## Numbers -/

/-- The first number of a tree is that of its root, and the others are those below. -/
theorem id_mem_tail_ids {n m : Node} {i : Nat} {address : List Nat}
    (h : n.at? (i :: address) = some m) : m.id ∈ n.ids.tail := by
  have hlisted := mem_located_iff.mpr h
  rw [located_eq, List.mem_cons] at hlisted
  rw [ids_eq, located_eq]
  exact List.mem_map_of_mem (hlisted.resolve_left (by simp))

/-- Numbers tell addresses apart. -/
theorem address_unique {root n m : Node} (hids : root.ids.Nodup) {a b : List Nat}
    (ha : root.at? a = some n) (hb : root.at? b = some m) (hid : n.id = m.id) : a = b := by
  rw [ids_eq] at hids
  have heq : (a, n) = (b, m) :=
    List.inj_on_of_nodup_map hids (mem_located_iff.mpr ha) (mem_located_iff.mpr hb) hid
  exact congrArg Prod.fst heq

theorem nodup_addresses {root : Node} (hids : root.ids.Nodup) :
    (root.located.map Prod.fst).Nodup := by
  rw [ids_eq] at hids
  refine List.Nodup.map_on (fun x hx y hy heq => ?_) (List.Nodup.of_map _ hids)
  have hsame : some x.2 = some y.2 := by
    rw [← mem_located_iff.mp hx, ← mem_located_iff.mp hy, heq]
  exact Prod.ext heq (Option.some.inj hsame)

/-- In the whole tree, everything below a node has a smaller number than the node. -/
def Ascending (root : Node) : Prop :=
  ∀ (address below : List Nat) (n m : Node), root.at? address = some n → below ≠ [] →
    n.at? below = some m → m.id < n.id

theorem Ascending.of_parts {n : Node} (hparts : ∀ part ∈ n.parts, part.Ascending)
    (hlast : ∀ id ∈ n.ids.tail, id < n.id) : n.Ascending := by
  intro address below m k hm hbelow hk
  cases address with
  | nil =>
      -- the node itself, which was numbered after all that is below it
      obtain rfl := Option.some.inj hm
      cases below with
      | nil => exact absurd rfl hbelow
      | cons i below => exact hlast k.id (id_mem_tail_ids hk)
  | cons i address =>
      obtain ⟨part, hpart, hm⟩ := at?_cons_eq_some_iff.mp hm
      exact hparts part (List.mem_of_getElem? hpart) address below m k hm hbelow hk

variable {first next : Nat} {span : Option Text.Span}

theorem Ascending.array {items : List Node} (h : ∀ n ∈ items, n.Ascending)
    (hnumbered : Numbered (idsOfItems items) first next) :
    (Node.array next span items).Ascending :=
  .of_parts h fun _ hid => hnumbered.lt hid

theorem Ascending.table {entries : List Entry} (h : ∀ e ∈ entries, e.node.Ascending)
    (hnumbered : Numbered (idsOfEntries entries) first next) :
    (Node.table next span entries).Ascending :=
  .of_parts (List.forall_mem_map.mpr h) fun _ hid => hnumbered.lt hid

end Node

mutual

theorem Literal.ascending_toNode : ∀ (l : Literal) (next : Nat), (l.toNode next).1.Ascending
  | .scalar _ _, _ => .of_parts (List.forall_mem_nil _) (List.forall_mem_nil _)
  | .array _ items, next =>
      .array (Literal.ascending_toNodes items next) (Literal.numbered_toNodes items next)
  | .inline _ entries, next =>
      .table (Literal.ascending_toEntries entries next) (Literal.numbered_toEntries entries next)

theorem Literal.ascending_toNodes : ∀ (ls : List Literal) (next : Nat),
    ∀ n ∈ (Literal.toNodes ls next).1, n.Ascending
  | [], _ => List.forall_mem_nil _
  | l :: ls, next =>
      List.forall_mem_cons.mpr ⟨l.ascending_toNode next, Literal.ascending_toNodes ls _⟩

theorem Literal.ascending_toEntries : ∀ (ls : List (Key × Literal)) (next : Nat),
    ∀ e ∈ (Literal.toEntries ls next).1, e.node.Ascending
  | [], _ => List.forall_mem_nil _
  | (_, l) :: ls, next =>
      List.forall_mem_cons.mpr ⟨l.ascending_toNode next, Literal.ascending_toEntries ls _⟩

end

mutual

theorem Item.ascending_toEntry : ∀ (key : Key) (item : Item) (next : Nat),
    (Item.toEntry key item next).1.node.Ascending
  | _, .literal value, next => value.ascending_toNode next
  | _, .table ⟨_, entries⟩, next =>
      .table (Item.ascending_toEntries entries next) (Item.numbered_toEntries entries next)
  | _, .tables rows, next =>
      .array (Item.ascending_toRows rows next) (Item.numbered_toRows rows next)

theorem Item.ascending_toEntries : ∀ (items : List (Key × Item)) (next : Nat),
    ∀ e ∈ (Item.toEntries items next).1, e.node.Ascending
  | [], _ => List.forall_mem_nil _
  | (key, item) :: items, next =>
      List.forall_mem_cons.mpr
        ⟨Item.ascending_toEntry key item next, Item.ascending_toEntries items _⟩

theorem Item.ascending_toRows : ∀ (rows : List (TableOf Item)) (next : Nat),
    ∀ n ∈ (Item.toRows rows next).1, n.Ascending
  | [], _ => List.forall_mem_nil _
  | ⟨_, entries⟩ :: rows, next =>
      List.forall_mem_cons.mpr
        ⟨.table (Item.ascending_toEntries entries next) (Item.numbered_toEntries entries next),
          Item.ascending_toRows rows _⟩

end

section

variable {source : Text.Named} {d : Document}

theorem Document.ascending_of_parse (h : Document.parse source = .ok d) : d.root.Ascending := by
  unfold parse at h
  split at h
  · cases h
  · next table _ =>
    obtain rfl := Except.ok.inj h
    exact .table (Item.ascending_toEntries table.entries 0)
      (Item.numbered_toEntries table.entries 0)

/-- The root gets its number last. -/
theorem Document.id_root_of_parse (h : Document.parse source = .ok d) :
    d.root.id + 1 = d.nodeCount := by
  unfold parse at h
  split at h
  · cases h
  · obtain rfl := Except.ok.inj h
    rfl

end

end Toml

/-! ## What is used -/

namespace DocumentFile

open Toml (Node Entry Document)

/-- The entry is in a table of the tree, and its node has this address. -/
def StandsAt (root : Node) (e : Entry) (address : List Nat) : Prop :=
  ∃ above n i, root.at? above = some n ∧ n.entries[i]? = some e ∧ address = above ++ [i]

/-- The node at the address counts as used. -/
def UsedAt (d : Document) (f : DocumentFile) (address : List Nat) : Prop :=
  ∃ n, d.root.at? address = some n ∧ n.id ∈ f.consumed

/-- Each of the entries stands at one address, and the later state has used what the earlier one
had and what stands at these addresses. -/
structure Uses (d : Document) (es : List Entry) (f f' : DocumentFile) : Prop where
  place : ∀ e ∈ es, ∃! address, StandsAt d.root e address
  usedAt_iff : ∀ address, UsedAt d f' address ↔
    UsedAt d f address ∨ ∃ e ∈ es, StandsAt d.root e address

variable {d : Document} {f f' : DocumentFile} {e : Entry}

theorem StandsAt.at? {root : Node} {address : List Nat} (h : StandsAt root e address) :
    root.at? address = some e.node := by
  obtain ⟨above, n, i, hn, he, rfl⟩ := h
  rw [Node.at?_append, hn]
  exact Node.at?_cons_eq_some_iff.mpr ⟨e.node, Node.getElem?_parts he, rfl⟩

theorem StandsAt.below {root n : Node} {i : Nat} {address : List Nat}
    (hn : root.parts[i]? = some n) (h : StandsAt n e address) : StandsAt root e (i :: address) := by
  obtain ⟨above, m, j, hm, he, rfl⟩ := h
  exact ⟨i :: above, m, j, Node.at?_cons_eq_some_iff.mpr ⟨n, hn, hm⟩, he, rfl⟩

mutual

/-- An entry that tables lead to stands somewhere. -/
theorem exists_standsAt : ∀ n : Node, e ∈ n.inside → ∃ address, StandsAt n e address
  | .scalar _ _ _, h => by cases h
  | .array _ _ _, h => by cases h
  | .table id span entries, h => by
      obtain ⟨i, e', he', rfl | ⟨address, hbelow⟩⟩ := exists_standsAt_of_mem_insideOf entries h
      · exact ⟨[i], [], .table id span entries, i, rfl, he', rfl⟩
      · exact ⟨i :: address, hbelow.below (Node.getElem?_parts he')⟩

theorem exists_standsAt_of_mem_insideOf : ∀ es : List (Toml.EntryOf Node), e ∈ Node.insideOf es →
    ∃ (i : Nat) (e' : Entry), es[i]? = some e' ∧ (e = e' ∨ ∃ address, StandsAt e'.node e address)
  | e' :: es, h => by
      rw [Node.insideOf, List.mem_cons, List.mem_append] at h
      rcases h with rfl | hinside | hmore
      · exact ⟨0, e, rfl, Or.inl rfl⟩
      · exact ⟨0, e', rfl, Or.inr (exists_standsAt e'.node hinside)⟩
      · obtain ⟨i, e'', he'', hfound⟩ := exists_standsAt_of_mem_insideOf es hmore
        exact ⟨i + 1, e'', he'', hfound⟩

end

/-- To keep the numbers of entries is to keep their addresses. -/
theorem Uses.of_consumed {es : List Entry} (hids : d.root.ids.Nodup)
    (hes : ∀ e ∈ es, e ∈ d.root.inside)
    (h : f'.consumed = f.consumed ++ es.map (·.node.id)) : Uses d es f f' := by
  constructor
  · intro e he
    obtain ⟨address, hstands⟩ := exists_standsAt d.root (hes e he)
    exact ⟨address, hstands, fun _ hother => Node.address_unique hids hother.at? hstands.at? rfl⟩
  · intro address
    unfold UsedAt
    rw [h]
    constructor
    · rintro ⟨n, hn, hid⟩
      rcases List.mem_append.mp hid with hold | hnew
      · exact Or.inl ⟨n, hn, hold⟩
      · obtain ⟨e, he, hid⟩ := List.mem_map.mp hnew
        obtain ⟨address', hstands⟩ := exists_standsAt d.root (hes e he)
        -- the entry's number is found at its own address only
        obtain rfl := Node.address_unique hids hstands.at? hn hid
        exact Or.inr ⟨e, he, hstands⟩
    · rintro (⟨n, hn, hold⟩ | ⟨e, he, hstands⟩)
      · exact ⟨n, hn, List.mem_append_left _ hold⟩
      · exact ⟨e.node, hstands.at?, List.mem_append_right _ (List.mem_map_of_mem he)⟩

theorem mem_inside_of_entriesFor {root : ModuleId} {v : VariableId} {x : Section × Entry}
    (h : x ∈ entriesFor root d v) : x.2 ∈ d.root.inside :=
  (names_iff.mpr ⟨x.1, h⟩).mem_inside

theorem mem_inside_of_unused (hd : f.document = some d) {x : String × Entry}
    (h : x ∈ f.unused) : x.2 ∈ d.root.inside := by
  rw [unused_eq hd] at h
  obtain ⟨l, hl, rfl⟩ := List.mem_map.mp h
  obtain ⟨hleads, -⟩ := Node.mem_leaves_iff.mp (List.mem_filter.mp hl).1
  rw [Node.inside_eq]
  exact Node.mem_inside_of_leads hleads (by simp [Toml.Leaf.way])

theorem uses_mark (hd : f.document = some d) (hids : d.root.ids.Nodup) (v : Variable) :
    Uses d ((entriesFor f.root d v.id).map Prod.snd) f (mark v f) := by
  refine .of_consumed hids (List.forall_mem_map.mpr fun x hx => mem_inside_of_entriesFor hx) ?_
  unfold mark
  rw [hd, List.map_map]
  exact consumed_locate f d v.id

theorem uses_complete (hd : f.document = some d) (hids : d.root.ids.Nodup) :
    Uses d (f.unused.map Prod.snd) f (complete f).2 := by
  refine .of_consumed hids (List.forall_mem_map.mpr fun x hx => mem_inside_of_unused hd hx) ?_
  unfold complete
  rw [hd, List.map_map]
  rfl

/-- **Numbers identify nodes.** A walk through a document visits the node of every address once.
The numbers it comes across are those below the node count, in some order; a node has a greater
number than all nodes below it, and the root has the greatest; nodes with the same number have the
same address. So a lookup, a mark and the end of a pass use what stands at the addresses of the
entries that they are about, and no other node. -/
theorem numbers_identify_nodes {source : Text.Named} {d : Document}
    (h : Document.parse source = .ok d) :
    (d.root.located.map Prod.fst).Nodup
      ∧ (∀ address n, (address, n) ∈ d.root.located ↔ d.root.at? address = some n)
      ∧ (∀ {σ : Type} (visit : σ → Node → σ) (s : σ),
          d.root.walk visit s = (d.root.located.map Prod.snd).foldl visit s)
      ∧ (d.root.walk (fun ids n => ids ++ [n.id]) []).Perm (List.range d.nodeCount)
      ∧ (∀ address below n m, d.root.at? address = some n → below ≠ [] →
          n.at? below = some m → m.id < n.id)
      ∧ d.root.id + 1 = d.nodeCount
      ∧ (∀ address address' n n', d.root.at? address = some n → d.root.at? address' = some n' →
          n.id = n'.id → address = address')
      ∧ ∀ f : DocumentFile, f.document = some d →
          (∀ g kind v, Uses d ((entriesFor f.root d v.id).map Prod.snd) f (read g kind v f).2)
            ∧ (∀ v, Uses d ((entriesFor f.root d v.id).map Prod.snd) f (mark v f))
            ∧ Uses d (f.unused.map Prod.snd) f (complete f).2 := by
  have hnumbered := Document.numbered_of_parse h
  have hids := hnumbered.nodup
  refine ⟨Node.nodup_addresses hids, fun _ _ => Node.mem_located_iff,
    fun visit s => Node.walk_eq_foldl visit d.root s, ?_, Document.ascending_of_parse h,
    Document.id_root_of_parse h, fun _ _ _ _ hn hn' hid => Node.address_unique hids hn hn' hid,
    fun f hd => ⟨?_, ?_, ?_⟩⟩
  · rw [Node.walk_ids, List.range_eq_range']
    exact hnumbered.perm
  · intro g kind v
    rw [read_state]
    exact uses_mark hd hids v
  · exact uses_mark hd hids
  · exact uses_complete hd hids

/-- An inline table in an array, an array of tables, and a table that a dotted key makes. The
variable `a` stands at the first entry of `m`, whose node has the number 3. -/
theorem numbers_identify_nodes_nested :
    let source : Text.Named :=
      ⟨none, "[m]\na = [1, \x7b b = 2 \x7d]\n[[m.r]]\nc.d = 3\n[[m.r]]\n"⟩
    let root : ModuleId := ⟨"o", "m", "1"⟩
    let v : Variable := ⟨⟨root, "a"⟩, .primitive .int, true⟩
    let numbers : List (List Nat × Nat) :=
      [([], 10), ([0], 9), ([0, 0], 3), ([0, 0, 0], 0), ([0, 0, 1], 2), ([0, 0, 1, 0], 1),
        ([0, 1], 8), ([0, 1, 0], 6), ([0, 1, 0, 0], 5), ([0, 1, 0, 0, 0], 4), ([0, 1, 1], 7)]
    ∃ d, Document.parse source = .ok d ∧
      d.root.located.map (fun (address, n) => (address, n.id)) = numbers ∧
      (d.root.walk (fun ids n => ids ++ [n.id]) []).Perm (List.range 11) ∧
      (entriesFor root d v.id).map (·.2.node.id) = [3] ∧
      let f : DocumentFile := ⟨root, .content source.text, some d, [], []⟩
      Uses d ((entriesFor root d v.id).map Prod.snd) f (mark v f) := by
  intro source root v numbers
  have hnumbers : (Document.parse source).toOption.map
      (fun d => d.root.located.map fun (address, n) => (address, n.id)) = some numbers := by
    decide +kernel
  have hcount : (Document.parse source).toOption.map Document.nodeCount = some 11 := by
    decide +kernel
  have hentry : (Document.parse source).toOption.map
      (fun d => (entriesFor root d v.id).map (·.2.node.id)) = some [3] := by
    decide +kernel
  cases hd : Document.parse source with
  | error issue =>
      rw [hd] at hnumbers
      cases hnumbers
  | ok d =>
      rw [hd] at hnumbers hcount hentry
      obtain ⟨-, -, -, hperm, -, -, -, huses⟩ := numbers_identify_nodes hd
      rw [Option.some.inj hcount] at hperm
      exact ⟨d, rfl, Option.some.inj hnumbers, hperm, Option.some.inj hentry,
        (huses ⟨root, .content source.text, some d, [], []⟩ rfl).2.1 v⟩

end DocumentFile

end Configurable
