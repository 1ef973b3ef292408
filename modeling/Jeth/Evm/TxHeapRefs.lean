import Mathlib
import Jeth.Lib.HeapInterface
import Jeth.Evm.TxHeapOrder

/-!
# The transaction heap with its pointers

`TxHeap` keeps the entries of each heap as values and finds an ID by its position. The source
keeps pointers: `items []*txEntry` and `lookup map[ids.ID]*txEntry` point to `txEntry` values
that record their own position in `index`, which `Swap` rewrites and `Remove` reads. Here the
`txEntry` values live in `cells`, at the address each was allocated at, and `items` and `lookup`
hold addresses.

`Wf` is what keeps the pointers right: the addresses in `items` are distinct, the entry at each
position records that position, and `lookup` maps exactly the IDs of `items` to their entries.
Every method keeps it (`Wf.swap`, `Wf.push`, `Wf.pop`), so the sifts of `container/heap` keep it
too (`HeapInterface.Simulates`). Under it, the entries `items` points to (`view`) move as
`TxHeap` moves its values: `heapPush` is `InternalTxHeap.push` and `heapRemove` is
`InternalTxHeap.remove` (`view_heapPush`, `view_heapRemove`), and a run of `txHeap` operations
is a run of `TxHeap` (`run_toTxHeap`).
-/

namespace Jeth

open scoped List

/-- A `txEntry` value in memory: the entry and its `index`. -/
structure TxEntryCell (ID UTXO Asset : Type*) where
  entry : TxEntry ID UTXO Asset
  index : ℕ

/-- `internalTxHeap` with its entries behind pointers: `cells` is the memory of `txEntry` values
by address, and `items` and `lookup` hold addresses. -/
structure InternalTxHeapRef (ID UTXO Asset : Type*) where
  isMinHeap : Bool
  cells : List (TxEntryCell ID UTXO Asset)
  items : List ℕ
  lookup : AList fun _ : ID => ℕ

variable {ID UTXO Asset : Type*} [DecidableEq ID]

/-- In a heap whose entries have distinct IDs, an entry's position is the position of its ID. -/
theorem InternalTxHeap.indexOf_eq_some {th : InternalTxHeap ID UTXO Asset} {id : ID} {k : ℕ}
    {e : TxEntry ID UTXO Asset} (hnodup : (th.items.map TxEntry.id).Nodup)
    (hk : th.items[k]? = some e) (hid : e.id = id) : th.indexOf id = some k := by
  obtain ⟨hk', rfl⟩ := List.getElem?_eq_some_iff.mp hk
  rw [InternalTxHeap.indexOf, List.findIdx?_eq_some_iff_getElem]
  refine ⟨hk', by simpa using hid, fun j hj hjid => ?_⟩
  have hjlen : j < (th.items.map TxEntry.id).length := by simp; omega
  have hklen : k < (th.items.map TxEntry.id).length := by simpa using hk'
  have hmap : (th.items.map TxEntry.id)[j] = (th.items.map TxEntry.id)[k] := by
    simpa [hid] using hjid
  have := (List.Nodup.getElem_inj_iff hnodup).mp hmap
  omega

namespace InternalTxHeapRef

/-- The entries `items` points to, in order. -/
def view (th : InternalTxHeapRef ID UTXO Asset) : InternalTxHeap ID UTXO Asset :=
  ⟨th.isMinHeap, th.items.filterMap fun a => th.cells[a]?.map TxEntryCell.entry⟩

/-- `th.items[i]`, through the pointer. -/
def cellAt (th : InternalTxHeapRef ID UTXO Asset) (i : ℕ) : Option (TxEntryCell ID UTXO Asset) :=
  th.items[i]?.bind fun a => th.cells[a]?

/-- `Len()`. -/
def len (th : InternalTxHeapRef ID UTXO Asset) : ℕ := th.items.length

/-- `Less(i, j)` on the gas prices of the entries at `i` and `j`. -/
def less (th : InternalTxHeapRef ID UTXO Asset) (i j : ℕ) : Bool :=
  match th.cellAt i, th.cellAt j with
  | some a, some b => th.view.less a.entry b.entry
  | _, _ => false

/-- `items[i].index = i`, written through the pointer `a`. -/
def setIndex (cells : List (TxEntryCell ID UTXO Asset)) (a i : ℕ) :
    List (TxEntryCell ID UTXO Asset) :=
  cells.modify a fun c => { c with index := i }

/-- `Swap(i, j)`: the pointers change places, and each entry records its new position. -/
def swap (th : InternalTxHeapRef ID UTXO Asset) (i j : ℕ) : InternalTxHeapRef ID UTXO Asset :=
  let items := BinaryHeap.swap th.items i j
  match items[i]?, items[j]? with
  | some a, some b => { th with items, cells := setIndex (setIndex th.cells a i) b j }
  | _, _ => th

/-- The methods `container/heap` calls. -/
def heapInterface : HeapInterface (InternalTxHeapRef ID UTXO Asset) := ⟨len, less, swap⟩

/-- `Get(id)`: the entry `lookup` points to. -/
def get (th : InternalTxHeapRef ID UTXO Asset) (id : ID) : Option (TxEntryCell ID UTXO Asset) :=
  (th.lookup.lookup id).bind fun a => th.cells[a]?

/-- `Has(id)`. -/
def has (th : InternalTxHeapRef ID UTXO Asset) (id : ID) : Bool := (th.get id).isSome

/-- `&txEntry{...}`: a new value, at the first free address. -/
def alloc (th : InternalTxHeapRef ID UTXO Asset) (c : TxEntryCell ID UTXO Asset) :
    ℕ × InternalTxHeapRef ID UTXO Asset :=
  (th.cells.length, { th with cells := th.cells ++ [c] })

/-- `Push(x)` of the entry at address `a`: appended, and entered in `lookup`, unless its ID is
held already. -/
def push (th : InternalTxHeapRef ID UTXO Asset) (a : ℕ) : InternalTxHeapRef ID UTXO Asset :=
  match th.cells[a]? with
  | some c =>
    if th.has c.entry.id then th
    else { th with items := th.items ++ [a], lookup := th.lookup.insert c.entry.id a }
  | none => th

/-- `Pop()`: the last pointer off `items`, and its ID out of `lookup`. -/
def pop (th : InternalTxHeapRef ID UTXO Asset) : Option ℕ × InternalTxHeapRef ID UTXO Asset :=
  match th.items.getLast? with
  | some a =>
    (some a, { th with
      items := th.items.dropLast
      lookup := match th.cells[a]? with
        | some c => th.lookup.erase c.entry.id
        | none => th.lookup })
  | none => (none, th)

/-- `heap.Push(th, &txEntry{...})`. -/
def heapPush (th : InternalTxHeapRef ID UTXO Asset) (c : TxEntryCell ID UTXO Asset) :
    InternalTxHeapRef ID UTXO Asset :=
  let (a, th) := th.alloc c
  let th := th.push a
  heapInterface.up th (th.len - 1)

/-- `heap.Remove(th, i)`, with the address of the entry it returns. -/
def heapRemove (th : InternalTxHeapRef ID UTXO Asset) (i : ℕ) :
    Option ℕ × InternalTxHeapRef ID UTXO Asset :=
  (heapInterface.removeSift th i).pop

omit [DecidableEq ID] in
theorem view_eq_mk {th : InternalTxHeapRef ID UTXO Asset} {b : Bool}
    {l : List (TxEntry ID UTXO Asset)} : th.view = ⟨b, l⟩ ↔ th.isMinHeap = b ∧ th.view.items = l := by
  simp only [view, InternalTxHeap.mk.injEq]

/-! ### Pointers kept right -/

/-- The pointers of a heap are right: the addresses in `items` are distinct, the entry at each
position records that position in `index`, and `lookup` maps exactly the IDs of the entries
`items` points to, each to the address of its entry. -/
structure Wf (th : InternalTxHeapRef ID UTXO Asset) : Prop where
  nodup : th.items.Nodup
  index : ∀ k a, th.items[k]? = some a → th.cells[a]?.map TxEntryCell.index = some k
  lookup : ∀ id a, th.lookup.lookup id = some a ↔
    a ∈ th.items ∧ th.cells[a]?.map (fun c => c.entry.id) = some id

omit [DecidableEq ID] in
theorem getElem?_filterMap_of_isSome {α β : Type*} {f : α → Option β} :
    ∀ {l : List α}, (∀ a ∈ l, (f a).isSome) → ∀ k : ℕ, (l.filterMap f)[k]? = l[k]?.bind f
  | [], _, _ => rfl
  | a :: l, h, k => by
    obtain ⟨b, hb⟩ := Option.isSome_iff_exists.mp (h a List.mem_cons_self)
    rw [List.filterMap_cons_some hb]
    cases k with
    | zero => simp [hb]
    | succ k =>
      simpa using getElem?_filterMap_of_isSome (fun x hx => h x (List.mem_cons_of_mem _ hx)) k

omit [DecidableEq ID] in
theorem length_filterMap_of_isSome {α β : Type*} {f : α → Option β} :
    ∀ {l : List α}, (∀ a ∈ l, (f a).isSome) → (l.filterMap f).length = l.length
  | [], _ => rfl
  | a :: l, h => by
    obtain ⟨b, hb⟩ := Option.isSome_iff_exists.mp (h a List.mem_cons_self)
    rw [List.filterMap_cons_some hb, List.length_cons, List.length_cons,
      length_filterMap_of_isSome fun x hx => h x (List.mem_cons_of_mem _ hx)]

/-- Every address in `items` holds an entry. -/
theorem Wf.isSome {th : InternalTxHeapRef ID UTXO Asset} (h : th.Wf) {a : ℕ} (ha : a ∈ th.items) :
    (th.cells[a]?).isSome := by
  obtain ⟨k, hk, rfl⟩ := List.getElem_of_mem ha
  have := h.index k _ (List.getElem?_eq_getElem hk)
  cases hc : th.cells[th.items[k]]? with
  | none => rw [hc] at this; cases this
  | some _ => rfl

theorem Wf.lt_length {th : InternalTxHeapRef ID UTXO Asset} (h : th.Wf) {a : ℕ}
    (ha : a ∈ th.items) : a < th.cells.length := by
  have := h.isSome ha
  rw [Option.isSome_iff_exists] at this
  obtain ⟨c, hc⟩ := this
  exact (List.getElem?_eq_some_iff.mp hc).1

theorem Wf.getElem?_view {th : InternalTxHeapRef ID UTXO Asset} (h : th.Wf) (k : ℕ) :
    th.view.items[k]? = (th.cellAt k).map TxEntryCell.entry := by
  rw [view, getElem?_filterMap_of_isSome fun a ha => by simpa using h.isSome ha, cellAt,
    Option.map_bind]
  rfl

theorem Wf.length_view {th : InternalTxHeapRef ID UTXO Asset} (h : th.Wf) :
    th.view.items.length = th.len :=
  length_filterMap_of_isSome fun a ha => by simpa using h.isSome ha

/-! ### `Swap` -/

omit [DecidableEq ID] in
theorem getElem?_setIndex (cells : List (TxEntryCell ID UTXO Asset)) (a i b : ℕ) :
    (setIndex cells a i)[b]? =
      cells[b]?.map fun c => if a = b then { c with index := i } else c := by
  rw [setIndex, List.getElem?_modify]
  rfl

omit [DecidableEq ID] in
/-- Writing an `index` leaves every entry as it was. -/
theorem map_setIndex_of_entry {β : Type*} (g : TxEntry ID UTXO Asset → β)
    (cells : List (TxEntryCell ID UTXO Asset)) (a i b : ℕ) :
    (setIndex cells a i)[b]?.map (fun c => g c.entry) = cells[b]?.map fun c => g c.entry := by
  rw [getElem?_setIndex, Option.map_map]
  congr 1
  funext c
  dsimp only [Function.comp]
  split_ifs <;> rfl

omit [DecidableEq ID] in
theorem map_index_setIndex (cells : List (TxEntryCell ID UTXO Asset)) (a i b : ℕ) :
    (setIndex cells a i)[b]?.map TxEntryCell.index =
      if a = b then cells[b]?.map fun _ => i else cells[b]?.map TxEntryCell.index := by
  rw [getElem?_setIndex, Option.map_map]
  split_ifs <;> rfl

omit [DecidableEq ID] in
theorem swap_eq {th : InternalTxHeapRef ID UTXO Asset} {i j : ℕ} (hi : i < th.items.length)
    (hj : j < th.items.length) :
    th.swap i j = { th with
      items := BinaryHeap.swap th.items i j
      cells := setIndex (setIndex th.cells th.items[j] i) th.items[i] j } := by
  unfold swap
  dsimp only
  rw [BinaryHeap.getElem?_swap_left _ hi hj, BinaryHeap.getElem?_swap_right _ hi hj,
    List.getElem?_eq_getElem hi, List.getElem?_eq_getElem hj]

omit [DecidableEq ID] in
/-- Where `f` gives a value on every element, a swap commutes with `filterMap f`. -/
theorem filterMap_swap {α β : Type*} {f : α → Option β} {l : List α} (hl : ∀ a ∈ l, (f a).isSome)
    {i j : ℕ} (hi : i < l.length) (hj : j < l.length) :
    (BinaryHeap.swap l i j).filterMap f = BinaryHeap.swap (l.filterMap f) i j := by
  have hlen := length_filterMap_of_isSome hl
  have hl' : ∀ a ∈ BinaryHeap.swap l i j, (f a).isSome := fun a ha =>
    hl a ((BinaryHeap.swap_perm l i j).subset ha)
  apply List.ext_getElem?
  intro k
  rw [getElem?_filterMap_of_isSome hl', BinaryHeap.getElem?_swap_eq _ hi hj,
    BinaryHeap.getElem?_swap_eq _ (hlen ▸ hi) (hlen ▸ hj), getElem?_filterMap_of_isSome hl]

theorem Wf.view_swap {th : InternalTxHeapRef ID UTXO Asset} (h : th.Wf) {i j : ℕ}
    (hi : i < th.items.length) (hj : j < th.items.length) :
    (th.swap i j).view.items = BinaryHeap.swap th.view.items i j := by
  rw [swap_eq hi hj]
  simp only [view, map_setIndex_of_entry (fun e => e)]
  exact filterMap_swap (fun a ha => by simpa using h.isSome ha) hi hj

/-- `Swap` keeps the pointers right: the entries at the two positions record them. -/
theorem Wf.swap {th : InternalTxHeapRef ID UTXO Asset} (h : th.Wf) {i j : ℕ}
    (hi : i < th.items.length) (hj : j < th.items.length) : (th.swap i j).Wf := by
  rw [swap_eq hi hj]
  have hperm := BinaryHeap.swap_perm th.items i j
  have hinj : ∀ {x y : ℕ} (hx : x < th.items.length) (hy : y < th.items.length),
      th.items[x] = th.items[y] → x = y := fun _ _ hxy => (h.nodup.getElem_inj_iff).mp hxy
  refine ⟨hperm.nodup_iff.mpr h.nodup, fun k a hk => ?_, fun id a => ?_⟩
  · dsimp only at hk ⊢
    rw [BinaryHeap.getElem?_swap_eq _ hi hj] at hk
    obtain ⟨c, hc⟩ := Option.isSome_iff_exists.mp (h.isSome (List.mem_of_getElem? hk))
    by_cases hkj : k = j
    · -- position `j` now points to the entry that was at `i`, the last one written
      subst hkj
      rw [Equiv.swap_apply_right, List.getElem?_eq_getElem hi, Option.some.injEq] at hk
      rw [map_index_setIndex, if_pos hk, map_setIndex_of_entry (fun _ => k), hc]
      rfl
    by_cases hki : k = i
    · -- position `i` now points to the entry that was at `j`
      subst hki
      rw [Equiv.swap_apply_left, List.getElem?_eq_getElem hj, Option.some.injEq] at hk
      have hne : th.items[k] ≠ a := fun heq => hkj (hinj hi hj (heq.trans hk.symm))
      rw [map_index_setIndex, if_neg hne, map_index_setIndex, if_pos hk, hc]
      rfl
    · -- any other position points to the entry it did
      rw [Equiv.swap_apply_of_ne_of_ne hki hkj] at hk
      have hk' := List.getElem?_eq_some_iff.mp hk
      have hne_i : th.items[i] ≠ a := fun heq => hki (hinj hk'.1 hi (hk'.2.trans heq.symm))
      have hne_j : th.items[j] ≠ a := fun heq => hkj (hinj hk'.1 hj (hk'.2.trans heq.symm))
      rw [map_index_setIndex, if_neg hne_i, map_index_setIndex, if_neg hne_j]
      exact h.index k a hk
  · dsimp only
    rw [h.lookup id a, hperm.mem_iff, map_setIndex_of_entry (fun e => e.id),
      map_setIndex_of_entry (fun e => e.id)]

/-- The pointer heap moves its view as a slice of entries moves, under `Wf`, with `Less` of a
heap that sifts in the direction `b`. -/
theorem simulates (b : Bool) :
    heapInterface.Simulates (⟨b, []⟩ : InternalTxHeap ID UTXO Asset).less
      (fun th : InternalTxHeapRef ID UTXO Asset => th.view.items) (fun th => th.Wf ∧ th.isMinHeap = b) where
  len _ hs := hs.1.length_view.symm
  less th i j hs := by
    show th.less i j = _
    unfold less BinaryHeap.lessAt
    rw [hs.1.getElem?_view i, hs.1.getElem?_view j]
    cases th.cellAt i <;> cases th.cellAt j <;> simp [InternalTxHeap.less, view, hs.2]
  swap _ _ _ hs hi hj := hs.1.view_swap hi hj
  inv_swap th i j hs hi hj := ⟨hs.1.swap hi hj, by
    show (th.swap i j).isMinHeap = b
    rw [swap_eq hi hj]
    exact hs.2⟩

/-! ### `Has`, allocation, `Push` and `Pop` -/

omit [DecidableEq ID] in
theorem mem_map_id_view {th : InternalTxHeapRef ID UTXO Asset} {id : ID} :
    id ∈ th.view.items.map TxEntry.id ↔
      ∃ a ∈ th.items, th.cells[a]?.map (fun c => c.entry.id) = some id := by
  simp only [view, List.mem_map, List.mem_filterMap, Option.map_eq_some_iff]
  constructor
  · rintro ⟨e, ⟨a, ha, c, hc, rfl⟩, rfl⟩
    exact ⟨a, ha, c, hc, rfl⟩
  · rintro ⟨a, ha, c, hc, rfl⟩
    exact ⟨c.entry, ⟨a, ha, c, hc, rfl⟩, rfl⟩

/-- Under `Wf`, `Has` through `lookup` finds exactly the IDs of the entries `items` points to. -/
theorem Wf.has_iff {th : InternalTxHeapRef ID UTXO Asset} (h : th.Wf) (id : ID) :
    th.has id = true ↔ ∃ a ∈ th.items, th.cells[a]?.map (fun c => c.entry.id) = some id := by
  constructor
  · intro hhas
    obtain ⟨c, hc⟩ := Option.isSome_iff_exists.mp hhas
    obtain ⟨a, hl, -⟩ := Option.bind_eq_some_iff.mp hc
    exact ⟨a, (h.lookup id a).mp hl⟩
  · rintro ⟨a, ha, hid⟩
    obtain ⟨c, hc⟩ := Option.isSome_iff_exists.mp (h.isSome ha)
    simp only [has, get, (h.lookup id a).mpr ⟨ha, hid⟩, Option.bind_some, hc, Option.isSome_some]

theorem Wf.has_eq {th : InternalTxHeapRef ID UTXO Asset} (h : th.Wf) (id : ID) :
    th.has id = th.view.has id := by
  rw [Bool.eq_iff_iff, InternalTxHeap.has_iff, mem_map_id_view, h.has_iff]

/-- Under `Wf`, the entries `items` points to have distinct IDs: `lookup` has one address for
each. -/
theorem Wf.nodup_map_id_view {th : InternalTxHeapRef ID UTXO Asset} (h : th.Wf) :
    (th.view.items.map TxEntry.id).Nodup := by
  rw [view, List.map_filterMap, List.Nodup, List.pairwise_filterMap]
  refine h.nodup.imp_of_mem fun {a a'} ha ha' hne b hb b' hb' hbb => hne ?_
  rw [Option.map_map] at hb hb'
  have hla := (h.lookup b a).mpr ⟨ha, hb⟩
  have hla' := (h.lookup b a').mpr ⟨ha', hbb ▸ hb'⟩
  exact Option.some.inj (hla.symm.trans hla')

/-- The entry `Get` finds carries the ID, and sits in the view at its `index`. -/
theorem Wf.get_spec {th : InternalTxHeapRef ID UTXO Asset} (h : th.Wf) {id : ID}
    {c : TxEntryCell ID UTXO Asset} (hg : th.get id = some c) :
    c.entry.id = id ∧ th.view.items[c.index]? = some c.entry := by
  obtain ⟨a, hl, hc⟩ := Option.bind_eq_some_iff.mp hg
  obtain ⟨ha, hid⟩ := (h.lookup id a).mp hl
  obtain ⟨k, hk, rfl⟩ := List.getElem_of_mem ha
  have hindex := h.index k _ (List.getElem?_eq_getElem hk)
  rw [hc, Option.map_some, Option.some.injEq] at hindex hid
  refine ⟨hid, ?_⟩
  rw [hindex, h.getElem?_view, cellAt, List.getElem?_eq_getElem hk, Option.bind_some, hc,
    Option.map_some]

/-- Under `Wf`, the position of an ID among the entries is the `index` of the entry `Get`
finds. -/
theorem Wf.indexOf_view {th : InternalTxHeapRef ID UTXO Asset} (h : th.Wf) (id : ID) :
    th.view.indexOf id = (th.get id).map TxEntryCell.index := by
  cases hg : th.get id with
  | none =>
    rw [Option.map_none, InternalTxHeap.indexOf_eq_none_iff]
    intro e he hid
    have hhas : th.view.has id = true :=
      (InternalTxHeap.has_iff _ _).mpr (hid ▸ List.mem_map_of_mem he)
    rw [← h.has_eq, has, hg] at hhas
    cases hhas
  | some c =>
    obtain ⟨hid, hk⟩ := h.get_spec hg
    exact InternalTxHeap.indexOf_eq_some h.nodup_map_id_view hk hid

omit [DecidableEq ID] in
theorem getElem?_alloc (th : InternalTxHeapRef ID UTXO Asset) (c : TxEntryCell ID UTXO Asset) :
    (th.alloc c).2.cells[(th.alloc c).1]? = some c := by
  simp [alloc]

/-- Memory that grows keeps what the addresses in `items` hold. -/
theorem Wf.getElem?_append {th : InternalTxHeapRef ID UTXO Asset} (h : th.Wf)
    (l : List (TxEntryCell ID UTXO Asset)) {a : ℕ} (ha : a ∈ th.items) :
    (th.cells ++ l)[a]? = th.cells[a]? :=
  List.getElem?_append_left (h.lt_length ha)

theorem Wf.view_alloc {th : InternalTxHeapRef ID UTXO Asset} (h : th.Wf)
    (c : TxEntryCell ID UTXO Asset) : (th.alloc c).2.view = th.view := by
  simp only [alloc, view]
  congr 1
  exact List.filterMap_congr fun a ha => by rw [h.getElem?_append [c] ha]

/-- A new value in memory leaves the pointers right. -/
theorem Wf.alloc {th : InternalTxHeapRef ID UTXO Asset} (h : th.Wf)
    (c : TxEntryCell ID UTXO Asset) : (th.alloc c).2.Wf where
  nodup := h.nodup
  index k a hk := by
    show (th.cells ++ [c])[a]?.map _ = _
    rw [h.getElem?_append [c] (List.mem_of_getElem? hk)]
    exact h.index k a hk
  lookup id a := by
    show th.lookup.lookup id = some a ↔ a ∈ th.items ∧ (th.cells ++ [c])[a]?.map _ = _
    rw [h.lookup id a]
    exact and_congr_right fun ha => by rw [h.getElem?_append [c] ha]

theorem push_of_has {th : InternalTxHeapRef ID UTXO Asset} {a : ℕ} {c : TxEntryCell ID UTXO Asset}
    (hc : th.cells[a]? = some c) (hhas : th.has c.entry.id = true) : th.push a = th := by
  simp only [push, hc, hhas, if_true]

theorem push_of_not_has {th : InternalTxHeapRef ID UTXO Asset} {a : ℕ}
    {c : TxEntryCell ID UTXO Asset} (hc : th.cells[a]? = some c)
    (hhas : th.has c.entry.id = false) :
    th.push a = { th with items := th.items ++ [a], lookup := th.lookup.insert c.entry.id a } := by
  simp only [push, hc, hhas, Bool.false_eq_true, if_false]

/-- `Push` of an entry whose ID is not held, and that records the position it is appended at,
keeps the pointers right. -/
theorem Wf.push_new {th : InternalTxHeapRef ID UTXO Asset} (h : th.Wf) {a : ℕ}
    {c : TxEntryCell ID UTXO Asset} (hc : th.cells[a]? = some c) (hhas : th.has c.entry.id = false)
    (hindex : c.index = th.items.length) : (th.push a).Wf := by
  rw [push_of_not_has hc hhas]
  have hheld : ∀ a' ∈ th.items, th.cells[a']?.map (fun c => c.entry.id) ≠ some c.entry.id :=
    fun a' ha' hid => absurd ((h.has_iff _).mpr ⟨a', ha', hid⟩) (by rw [hhas]; decide)
  have hnew : a ∉ th.items := fun ha => hheld a ha (by rw [hc]; rfl)
  refine ⟨by rw [← List.concat_eq_append]; exact h.nodup.concat hnew, fun k a' hk => ?_,
    fun id a' => ?_⟩
  · dsimp only at hk ⊢
    rcases Nat.lt_or_ge k th.items.length with hlt | hge
    · rw [List.getElem?_append_left hlt] at hk
      exact h.index k a' hk
    · -- the appended position holds the new entry
      rw [List.getElem?_append_right hge, List.getElem?_singleton] at hk
      split_ifs at hk with h0
      cases hk
      rw [hc, Option.map_some, hindex]
      congr 1
      omega
  · dsimp only
    rw [List.mem_append, List.mem_singleton]
    by_cases hid : id = c.entry.id
    · -- the ID just entered points to the new entry, which no old address holds
      subst hid
      rw [AList.lookup_insert, Option.some.injEq]
      constructor
      · rintro rfl
        exact ⟨Or.inr rfl, by rw [hc]; rfl⟩
      · rintro ⟨ha' | rfl, hid'⟩
        · exact absurd hid' (hheld a' ha')
        · rfl
    · -- any other ID points where it did; the new entry does not carry it
      rw [AList.lookup_insert_ne hid, h.lookup id a']
      constructor
      · rintro ⟨ha', hid'⟩
        exact ⟨Or.inl ha', hid'⟩
      · rintro ⟨ha' | rfl, hid'⟩
        · exact ⟨ha', hid'⟩
        · rw [hc, Option.map_some, Option.some.injEq] at hid'
          exact absurd hid'.symm hid

theorem pop_of_eq_nil {th : InternalTxHeapRef ID UTXO Asset} (hnil : th.items = []) :
    th.pop = (none, th) := by
  simp [pop, hnil]

theorem pop_of_eq_concat {th : InternalTxHeapRef ID UTXO Asset} {init : List ℕ} {a : ℕ}
    {c : TxEntryCell ID UTXO Asset} (hitems : th.items = init ++ [a]) (hc : th.cells[a]? = some c) :
    th.pop = (some a, { th with items := init, lookup := th.lookup.erase c.entry.id }) := by
  simp [pop, hitems, hc]

/-- Taking the last address off `items`, and its ID out of `lookup`, keeps the pointers right. -/
theorem Wf.pop_last {th : InternalTxHeapRef ID UTXO Asset} (h : th.Wf) {init : List ℕ} {a : ℕ}
    {c : TxEntryCell ID UTXO Asset} (hitems : th.items = init ++ [a]) (hc : th.cells[a]? = some c) :
    ({ th with items := init, lookup := th.lookup.erase c.entry.id } :
      InternalTxHeapRef ID UTXO Asset).Wf := by
  have hnodup : (init ++ [a]).Nodup := hitems ▸ h.nodup
  have hlast : a ∉ init := fun ha => (List.nodup_append.mp hnodup).2.2 a ha a
    (List.mem_singleton_self a) rfl
  have hmem : ∀ x, x ∈ th.items ↔ x ∈ init ∨ x = a := by simp [hitems]
  refine ⟨(List.nodup_append.mp hnodup).1, fun k a' hk => ?_, fun id a' => ?_⟩
  · have hlt : k < init.length := (List.getElem?_eq_some_iff.mp hk).1
    exact h.index k a' (by rw [hitems, List.getElem?_append_left hlt]; exact hk)
  · dsimp only
    by_cases hid : id = c.entry.id
    · -- the popped ID is gone, and no address left in `items` carries it
      subst hid
      rw [AList.lookup_erase]
      simp only [reduceCtorEq, false_iff, not_and]
      intro ha' hid'
      have h₁ := (h.lookup _ a').mpr ⟨(hmem a').mpr (Or.inl ha'), hid'⟩
      have h₂ := (h.lookup _ a).mpr ⟨(hmem a).mpr (Or.inr rfl), by rw [hc]; rfl⟩
      exact hlast (Option.some.inj (h₁.symm.trans h₂) ▸ ha')
    · rw [AList.lookup_erase_ne hid, h.lookup id a', hmem]
      constructor
      · rintro ⟨ha' | rfl, hid'⟩
        · exact ⟨ha', hid'⟩
        · rw [hc, Option.map_some, Option.some.injEq] at hid'
          exact absurd hid'.symm hid
      · rintro ⟨ha', hid'⟩
        exact ⟨Or.inl ha', hid'⟩

/-- `Pop` takes the last entry off the view, hands back the address that holds it, and keeps the
pointers right. -/
theorem Wf.pop {th : InternalTxHeapRef ID UTXO Asset} (h : th.Wf) :
    th.pop.2.Wf ∧ th.pop.2.view = ⟨th.isMinHeap, th.view.items.dropLast⟩ ∧
      (th.pop.1.bind fun a => th.pop.2.cells[a]?).map TxEntryCell.entry =
        th.view.items.getLast? := by
  rcases List.eq_nil_or_concat th.items with hnil | ⟨init, a, hitems⟩
  · have hview : th.view.items = [] := by simp [view, hnil]
    rw [pop_of_eq_nil hnil, hview]
    exact ⟨h, view_eq_mk.mpr ⟨rfl, hview⟩, rfl⟩
  · rw [List.concat_eq_append] at hitems
    obtain ⟨c, hc⟩ := Option.isSome_iff_exists.mp (h.isSome (a := a) (by simp [hitems]))
    have hview : th.view.items =
        (init.filterMap fun a => th.cells[a]?.map TxEntryCell.entry) ++ [c.entry] := by
      simp [view, hitems, List.filterMap_append, hc]
    rw [pop_of_eq_concat hitems hc, hview, List.dropLast_concat, List.getLast?_concat]
    exact ⟨h.pop_last hitems hc, rfl, by simp [hc]⟩

theorem wf_empty (b : Bool) : (⟨b, [], [], ∅⟩ : InternalTxHeapRef ID UTXO Asset).Wf where
  nodup := List.nodup_nil
  index _ _ hk := by simp at hk
  lookup _ _ := by simp

/-- The root, read through its pointer, is the first entry of the view. -/
theorem Wf.cellAt_zero {th : InternalTxHeapRef ID UTXO Asset} (h : th.Wf) :
    (th.cellAt 0).map TxEntryCell.entry = th.view.items.head? := by
  rw [← h.getElem?_view, List.head?_eq_getElem?]

theorem Wf.cellAt_zero_isSome {th : InternalTxHeapRef ID UTXO Asset} (h : th.Wf)
    (hpos : 0 < th.len) : (th.cellAt 0).isSome := by
  obtain ⟨e, he⟩ : ∃ e, th.view.items.head? = some e :=
    ⟨_, List.head?_eq_getElem?.trans (List.getElem?_eq_getElem (h.length_view ▸ hpos))⟩
  rw [← h.cellAt_zero] at he
  obtain ⟨c, hc, -⟩ := Option.map_eq_some_iff.mp he
  rw [hc]
  rfl

theorem view_push_new {th : InternalTxHeapRef ID UTXO Asset} {a : ℕ}
    {c : TxEntryCell ID UTXO Asset} (hc : th.cells[a]? = some c)
    (hhas : th.has c.entry.id = false) :
    (th.push a).view = ⟨th.isMinHeap, th.view.items ++ [c.entry]⟩ := by
  rw [push_of_not_has hc hhas]
  simp [view, List.filterMap_append, hc]

/-! ### `heap.Push` and `heap.Remove` -/

/-- `up` of `container/heap` on the pointer heap is `up` on its view, and keeps the pointers
right. -/
theorem Wf.up {th : InternalTxHeapRef ID UTXO Asset} (h : th.Wf) (j : ℕ) :
    (heapInterface.up th j).Wf ∧
      (heapInterface.up th j).view = ⟨th.isMinHeap, BinaryHeap.up th.view.less th.view.items j⟩ := by
  obtain ⟨hview, hwf, hflag⟩ :=
    HeapInterface.upLoop_view (simulates th.isMinHeap) (j + 1) j ⟨h, rfl⟩
  exact ⟨hwf, view_eq_mk.mpr ⟨hflag, hview⟩⟩

/-- The new entry in memory and, unless its ID is held, in `items`: `heap.Push` before its
`up`. -/
theorem Wf.alloc_push {th : InternalTxHeapRef ID UTXO Asset} (h : th.Wf)
    {c : TxEntryCell ID UTXO Asset} (hindex : c.index = th.len) :
    ((th.alloc c).2.push (th.alloc c).1).Wf ∧
      ((th.alloc c).2.push (th.alloc c).1).view = ⟨th.isMinHeap,
        if th.view.has c.entry.id then th.view.items else th.view.items ++ [c.entry]⟩ := by
  have h₁ := h.alloc c
  have hc := getElem?_alloc th c
  have hhas : (th.alloc c).2.has c.entry.id = th.view.has c.entry.id := by
    rw [h₁.has_eq, h.view_alloc]
  cases hheld : th.view.has c.entry.id
  · -- a new ID: the entry is appended
    rw [hheld] at hhas
    refine ⟨h₁.push_new hc hhas hindex, ?_⟩
    rw [view_push_new hc hhas, h.view_alloc, if_neg Bool.false_ne_true]
    rfl
  · -- a held ID: the interface's `Push` returns at once
    rw [hheld] at hhas
    rw [push_of_has hc hhas, if_pos rfl, h.view_alloc]
    exact ⟨h₁, rfl⟩

theorem heapPush_eq (th : InternalTxHeapRef ID UTXO Asset) (c : TxEntryCell ID UTXO Asset) :
    th.heapPush c = heapInterface.up ((th.alloc c).2.push (th.alloc c).1)
      (((th.alloc c).2.push (th.alloc c).1).len - 1) := rfl

/-- `heap.Push` of an entry that records the position it is appended at is `heap.Push` on the
view, and keeps the pointers right. -/
theorem Wf.heapPush {th : InternalTxHeapRef ID UTXO Asset} (h : th.Wf)
    {c : TxEntryCell ID UTXO Asset} (hindex : c.index = th.len) :
    (th.heapPush c).Wf ∧ (th.heapPush c).view = th.view.push c.entry := by
  obtain ⟨h₂, hview₂⟩ := h.alloc_push hindex
  obtain ⟨hwf, hview⟩ := h₂.up (((th.alloc c).2.push (th.alloc c).1).len - 1)
  refine ⟨by rw [heapPush_eq]; exact hwf, ?_⟩
  have hflag₂ := (view_eq_mk.mp hview₂).1
  rw [heapPush_eq, hview, ← h₂.length_view, hview₂, hflag₂]
  rfl

/-- `heap.Remove` on the pointer heap is `heap.Remove` on its view: the address it returns
holds the entry that one returns, and the pointers stay right. -/
theorem Wf.heapRemove {th : InternalTxHeapRef ID UTXO Asset} (h : th.Wf) {i : ℕ}
    (hi : i < th.len) :
    (th.heapRemove i).2.Wf ∧ (th.heapRemove i).2.view = (th.view.remove i).2 ∧
      ((th.heapRemove i).1.bind fun a => (th.heapRemove i).2.cells[a]?).map TxEntryCell.entry =
        (th.view.remove i).1 := by
  obtain ⟨hrem, hwf, hflag⟩ :=
    HeapInterface.removeSift_view (simulates th.isMinHeap) (s := th) ⟨h, rfl⟩ hi
  obtain ⟨hpwf, hpview, hpget⟩ := hwf.pop
  have hremove : th.view.remove i = ((heapInterface.removeSift th i).view.items.getLast?,
      ⟨th.isMinHeap, (heapInterface.removeSift th i).view.items.dropLast⟩) := by
    have hless : th.view.less = (⟨th.isMinHeap, []⟩ : InternalTxHeap ID UTXO Asset).less := rfl
    rw [InternalTxHeap.remove, hless, hrem]
    rfl
  refine ⟨hpwf, ?_, ?_⟩
  · rw [InternalTxHeapRef.heapRemove, hpview, hremove, hflag]
  · rw [InternalTxHeapRef.heapRemove, hpget, hremove]

end InternalTxHeapRef

/-- `txHeap`, with pointers. -/
structure TxHeapRef (ID UTXO Asset : Type*) where
  maxHeap : InternalTxHeapRef ID UTXO Asset
  minHeap : InternalTxHeapRef ID UTXO Asset

/-- `newTxHeap`. -/
def newTxHeapRef : TxHeapRef ID UTXO Asset := ⟨⟨false, [], [], ∅⟩, ⟨true, [], [], ∅⟩⟩

namespace TxHeapRef

/-- `Len()`. -/
def len (th : TxHeapRef ID UTXO Asset) : ℕ := th.maxHeap.len

/-- `Push(tx, gasPrice)`: a new entry for each heap, both recording the old length. -/
def push (th : TxHeapRef ID UTXO Asset) (tx : Tx ID UTXO Asset) (gasPrice : ℕ) :
    TxHeapRef ID UTXO Asset :=
  let oldLen := th.len
  ⟨th.maxHeap.heapPush ⟨⟨tx.id, gasPrice, tx⟩, oldLen⟩,
    th.minHeap.heapPush ⟨⟨tx.id, gasPrice, tx⟩, oldLen⟩⟩

/-- `Remove(id)`: each heap removes the entry at the `index` its own entry records. -/
def remove (th : TxHeapRef ID UTXO Asset) (id : ID) :
    Option (Tx ID UTXO Asset) × TxHeapRef ID UTXO Asset :=
  match th.maxHeap.get id with
  | none => (none, th)
  | some maxEntry =>
    let maxHeap := (th.maxHeap.heapRemove maxEntry.index).2
    match th.minHeap.get id with
    -- the heaps out of sync, which the source says never happens
    | none => (none, ⟨maxHeap, th.minHeap⟩)
    | some minEntry =>
      let (a, minHeap) := th.minHeap.heapRemove minEntry.index
      ((a.bind fun a => minHeap.cells[a]?).map fun c => c.entry.tx, ⟨maxHeap, minHeap⟩)

/-- `PeekMax()`; `none` where the source indexes an empty slice. -/
def peekMax (th : TxHeapRef ID UTXO Asset) : Option (Tx ID UTXO Asset × ℕ) :=
  (th.maxHeap.cellAt 0).map fun c => (c.entry.tx, c.entry.gasPrice)

/-- `PeekMin()`; `none` where the source indexes an empty slice. -/
def peekMin (th : TxHeapRef ID UTXO Asset) : Option (Tx ID UTXO Asset × ℕ) :=
  (th.minHeap.cellAt 0).map fun c => (c.entry.tx, c.entry.gasPrice)

/-- `PopMax()`: `Remove` of the ID at the root of the max-heap; `none` where the source indexes
an empty slice. -/
def popMax (th : TxHeapRef ID UTXO Asset) :
    Option (Option (Tx ID UTXO Asset) × TxHeapRef ID UTXO Asset) :=
  (th.maxHeap.cellAt 0).map fun c => th.remove c.entry.id

/-- `PopMin()`: `Remove` of the ID at the root of the min-heap; `none` where the source indexes
an empty slice. -/
def popMin (th : TxHeapRef ID UTXO Asset) :
    Option (Option (Tx ID UTXO Asset) × TxHeapRef ID UTXO Asset) :=
  (th.minHeap.cellAt 0).map fun c => th.remove c.entry.id

/-- One operation; `none` where the source indexes an empty slice. -/
def step (th : TxHeapRef ID UTXO Asset) : TxHeapOp ID UTXO Asset → Option (TxHeapRef ID UTXO Asset)
  | .push tx gasPrice => some (th.push tx gasPrice)
  | .remove id => some (th.remove id).2
  | .popMax => th.popMax.map Prod.snd
  | .popMin => th.popMin.map Prod.snd

/-- The operations one after the other. -/
def run (th : TxHeapRef ID UTXO Asset) (ops : List (TxHeapOp ID UTXO Asset)) :
    Option (TxHeapRef ID UTXO Asset) :=
  ops.foldlM step th

theorem remove_of_get_eq_none {th : TxHeapRef ID UTXO Asset} {id : ID}
    (hg : th.maxHeap.get id = none) : th.remove id = (none, th) := by
  simp only [remove, hg]

theorem remove_of_get_eq_some {th : TxHeapRef ID UTXO Asset} {id : ID}
    {cmax cmin : TxEntryCell ID UTXO Asset} (hmax : th.maxHeap.get id = some cmax)
    (hmin : th.minHeap.get id = some cmin) :
    th.remove id = (((th.minHeap.heapRemove cmin.index).1.bind fun a =>
        (th.minHeap.heapRemove cmin.index).2.cells[a]?).map fun c => c.entry.tx,
      ⟨(th.maxHeap.heapRemove cmax.index).2, (th.minHeap.heapRemove cmin.index).2⟩) := by
  simp only [remove, hmax, hmin]

/-! ## The pointer heaps stand for a `TxHeap` -/

/-- The pointer heaps stand for the two heaps of `T`: the pointers of each are right, and they
point to `T`'s entries, in `T`'s order. -/
structure Refines (th : TxHeapRef ID UTXO Asset) (T : TxHeap ID UTXO Asset) : Prop where
  max_wf : th.maxHeap.Wf
  min_wf : th.minHeap.Wf
  max_view : th.maxHeap.view = T.maxHeap
  min_view : th.minHeap.view = T.minHeap

theorem refines_empty : (newTxHeapRef : TxHeapRef ID UTXO Asset).Refines TxHeap.empty :=
  ⟨InternalTxHeapRef.wf_empty false, InternalTxHeapRef.wf_empty true, rfl, rfl⟩

variable {th : TxHeapRef ID UTXO Asset} {T : TxHeap ID UTXO Asset}

theorem Refines.len_eq (hr : th.Refines T) : th.len = T.len := by
  rw [len, ← hr.max_wf.length_view, hr.max_view]
  rfl

theorem Refines.len_minHeap (hr : th.Refines T) : th.minHeap.len = th.len := by
  rw [← hr.min_wf.length_view, hr.min_view, T.length_minHeap, hr.len_eq]

/-- `Push` on the pointer heaps is `TxHeap.push`: the entry each heap gets records the length
both heaps have. -/
theorem Refines.push (hr : th.Refines T) (tx : Tx ID UTXO Asset) (gasPrice : ℕ) :
    (th.push tx gasPrice).Refines (T.push tx gasPrice) := by
  obtain ⟨hmax_wf, hmax_view⟩ :=
    hr.max_wf.heapPush (c := ⟨⟨tx.id, gasPrice, tx⟩, th.len⟩) rfl
  obtain ⟨hmin_wf, hmin_view⟩ :=
    hr.min_wf.heapPush (c := ⟨⟨tx.id, gasPrice, tx⟩, th.len⟩) hr.len_minHeap.symm
  refine ⟨hmax_wf, hmin_wf, ?_, ?_⟩
  · rw [TxHeapRef.push, hmax_view, hr.max_view]
    rfl
  · rw [TxHeapRef.push, hmin_view, hr.min_view]
    rfl

/-- `Remove` on the pointer heaps removes, at the `index` of each heap's entry, what
`TxHeap.remove` removes at the position of the ID, and returns the same transaction. -/
theorem Refines.remove (hr : th.Refines T) (id : ID) :
    (th.remove id).2.Refines (T.remove id).2 ∧ (th.remove id).1 = (T.remove id).1 := by
  have hmax := hr.max_wf.indexOf_view id
  have hmin := hr.min_wf.indexOf_view id
  rw [hr.max_view] at hmax
  rw [hr.min_view] at hmin
  cases hgmax : th.maxHeap.get id with
  | none =>
    -- neither side holds the ID
    rw [hgmax, Option.map_none] at hmax
    rw [remove_of_get_eq_none hgmax, TxHeap.remove_of_indexOf_eq_none hmax]
    exact ⟨hr, rfl⟩
  | some cmax =>
    rw [hgmax, Option.map_some] at hmax
    -- the min-heap holds the ID too, as the min-heap of `T` does
    obtain ⟨cmin, hgmin⟩ : ∃ cmin, th.minHeap.get id = some cmin := by
      refine Option.ne_none_iff_exists'.mp fun hnone => T.minHeap_indexOf_ne_none hmax ?_
      rw [hmin, hnone, Option.map_none]
    rw [hgmin, Option.map_some] at hmin
    obtain ⟨hres, hTmax, hTmin⟩ := TxHeap.remove_of_indexOf_eq_some hmax hmin
    have himax : cmax.index < th.maxHeap.len := by
      rw [← hr.max_wf.length_view]
      exact (List.getElem?_eq_some_iff.mp (hr.max_wf.get_spec hgmax).2).1
    have himin : cmin.index < th.minHeap.len := by
      rw [← hr.min_wf.length_view]
      exact (List.getElem?_eq_some_iff.mp (hr.min_wf.get_spec hgmin).2).1
    obtain ⟨hwf₁, hview₁, -⟩ := hr.max_wf.heapRemove himax
    obtain ⟨hwf₂, hview₂, hget₂⟩ := hr.min_wf.heapRemove himin
    rw [remove_of_get_eq_some hgmax hgmin, hres]
    refine ⟨⟨hwf₁, hwf₂, ?_, ?_⟩, ?_⟩
    · rw [hTmax, hview₁, hr.max_view]
    · rw [hTmin, hview₂, hr.min_view]
    · rw [← hr.min_view, ← hget₂, Option.map_map]
      rfl

theorem Refines.head_max {c : TxEntryCell ID UTXO Asset} (hr : th.Refines T)
    (hc : th.maxHeap.cellAt 0 = some c) : T.maxHeap.items.head? = some c.entry := by
  rw [← hr.max_view, ← hr.max_wf.cellAt_zero, hc, Option.map_some]

theorem Refines.head_min {c : TxEntryCell ID UTXO Asset} (hr : th.Refines T)
    (hc : th.minHeap.cellAt 0 = some c) : T.minHeap.items.head? = some c.entry := by
  rw [← hr.min_view, ← hr.min_wf.cellAt_zero, hc, Option.map_some]

/-- Each operation on the pointer heaps is the operation on the `TxHeap` they stand for. -/
theorem Refines.step (hr : th.Refines T) {op : TxHeapOp ID UTXO Asset}
    {th' : TxHeapRef ID UTXO Asset} (hs : th.step op = some th') :
    ∃ T', T.step op = some T' ∧ th'.Refines T' := by
  cases op with
  | push tx gasPrice =>
    simp only [TxHeapRef.step, Option.some.injEq] at hs
    exact ⟨_, rfl, hs ▸ hr.push tx gasPrice⟩
  | remove id =>
    simp only [TxHeapRef.step, Option.some.injEq] at hs
    exact ⟨_, rfl, hs ▸ (hr.remove id).1⟩
  | popMax =>
    -- a pop that finds a root removes its ID, as `TxHeap.popMax` does
    simp only [TxHeapRef.step, popMax, Option.map_map] at hs
    obtain ⟨c, hc, rfl⟩ := Option.map_eq_some_iff.mp hs
    have hhead := hr.head_max hc
    have hlen : T.len ≠ 0 := (List.length_pos_of_mem (List.mem_of_mem_head? hhead)).ne'
    refine ⟨_, ?_, (hr.remove c.entry.id).1⟩
    simp only [TxHeap.step, if_neg hlen, TxHeap.popMax_of_head hhead]
  | popMin =>
    simp only [TxHeapRef.step, popMin, Option.map_map] at hs
    obtain ⟨c, hc, rfl⟩ := Option.map_eq_some_iff.mp hs
    have hhead := hr.head_min hc
    have hlen : T.len ≠ 0 := by
      rw [← T.length_minHeap]
      exact (List.length_pos_of_mem (List.mem_of_mem_head? hhead)).ne'
    refine ⟨_, ?_, (hr.remove c.entry.id).1⟩
    simp only [TxHeap.step, if_neg hlen, TxHeap.popMin_of_head hhead]

/-- A run of the pointer heaps is a run of the `TxHeap` they stand for. -/
theorem Refines.run {th : TxHeapRef ID UTXO Asset} {T : TxHeap ID UTXO Asset}
    (hr : th.Refines T) :
    ∀ {ops : List (TxHeapOp ID UTXO Asset)} {th' : TxHeapRef ID UTXO Asset},
      th.run ops = some th' → ∃ T', T.run ops = some T' ∧ th'.Refines T'
  | [], _, hrun => by
    simp only [TxHeapRef.run, List.foldlM_nil, Option.pure_def, Option.some.injEq] at hrun
    subst hrun
    exact ⟨T, rfl, hr⟩
  | op :: ops, th', hrun => by
    simp only [TxHeapRef.run, List.foldlM_cons, Option.bind_eq_bind, Option.bind_eq_some_iff] at hrun
    obtain ⟨th₁, hs, hrest⟩ := hrun
    obtain ⟨T₁, hT₁, hr₁⟩ := hr.step hs
    obtain ⟨T', hT', hr'⟩ := hr₁.run hrest
    refine ⟨T', ?_, hr'⟩
    simp only [TxHeap.run, List.foldlM_cons, Option.bind_eq_bind, hT₁, Option.bind_some]
    exact hT'

/-! ## Consistency along every run -/

/-- What keeps `txHeap` right: the pointers of each heap (every entry's `index` is its position,
and `lookup` maps exactly the IDs of `items` to their entries), the same entries in both heaps,
and the max- and min-heap orders. -/
structure Consistent (th : TxHeapRef ID UTXO Asset) : Prop where
  max_wf : th.maxHeap.Wf
  min_wf : th.minHeap.Wf
  synced : th.maxHeap.view.items ~ th.minHeap.view.items
  max_flag : th.maxHeap.isMinHeap = false
  min_flag : th.minHeap.isMinHeap = true
  max_ordered : th.maxHeap.view.HeapOrdered
  min_ordered : th.minHeap.view.HeapOrdered

/-- The entries the heaps point to, as a multiset. -/
def pool (th : TxHeapRef ID UTXO Asset) : Multiset (TxEntry ID UTXO Asset) := th.maxHeap.view.items

theorem Refines.consistent (hr : th.Refines T) (hT : T.Ordered) : th.Consistent where
  max_wf := hr.max_wf
  min_wf := hr.min_wf
  synced := by
    rw [hr.max_view, hr.min_view]
    exact T.synced
  max_flag := (InternalTxHeapRef.view_eq_mk.mp hr.max_view).1.trans hT.max_flag
  min_flag := (InternalTxHeapRef.view_eq_mk.mp hr.min_view).1.trans hT.min_flag
  max_ordered := hr.max_view ▸ hT.max_ordered
  min_ordered := hr.min_view ▸ hT.min_ordered

theorem Refines.pool_eq (hr : th.Refines T) : th.pool = T.pool := by
  rw [pool, hr.max_view]
  rfl

/-- `PeekMax` reads an entry of the heap with a greatest gas price. -/
theorem Refines.peekMax_spec (hr : th.Refines T) (hT : T.Ordered) {p : Tx ID UTXO Asset × ℕ}
    (hp : th.peekMax = some p) :
    ∃ e ∈ th.pool, p = (e.tx, e.gasPrice) ∧ ∀ e' ∈ th.pool, e'.gasPrice ≤ e.gasPrice := by
  obtain ⟨c, hc, rfl⟩ := Option.map_eq_some_iff.mp hp
  have hhead := hr.head_max hc
  rw [hr.pool_eq]
  exact ⟨c.entry, Multiset.mem_coe.mpr (List.mem_of_mem_head? hhead), rfl, hT.le_head_max hhead⟩

/-- `PeekMin` reads an entry of the heap with a least gas price. -/
theorem Refines.peekMin_spec (hr : th.Refines T) (hT : T.Ordered) {p : Tx ID UTXO Asset × ℕ}
    (hp : th.peekMin = some p) :
    ∃ e ∈ th.pool, p = (e.tx, e.gasPrice) ∧ ∀ e' ∈ th.pool, e.gasPrice ≤ e'.gasPrice := by
  obtain ⟨c, hc, rfl⟩ := Option.map_eq_some_iff.mp hp
  have hhead := hr.head_min hc
  rw [hr.pool_eq]
  exact ⟨c.entry, TxHeap.mem_pool_of_head_min hhead, rfl, hT.head_min_le hhead⟩

/-- On a heap that is not empty, both peeks find a root. -/
theorem Refines.peek_isSome (hr : th.Refines T) (hlen : 0 < th.len) :
    th.peekMax.isSome ∧ th.peekMin.isSome := by
  simp only [peekMax, peekMin, Option.isSome_map]
  exact ⟨hr.max_wf.cellAt_zero_isSome hlen, hr.min_wf.cellAt_zero_isSome (hr.len_minHeap ▸ hlen)⟩

/-- Along every run of `txHeap` operations from `newTxHeap` in which no pop meets an empty heap,
the heaps stay consistent; the entries they hold follow `PoolStep`, with distinct IDs, and `Len`
counts them; and `PeekMax` and `PeekMin`, which find a root whenever the heap is not empty, read
an entry of greatest and of least gas price. -/
theorem run_newTxHeapRef_consistent {ops : List (TxHeapOp ID UTXO Asset)}
    {th : TxHeapRef ID UTXO Asset} (hrun : newTxHeapRef.run ops = some th) :
    th.Consistent ∧ PoolRun 0 ops th.pool ∧ (th.pool.map TxEntry.id).Nodup ∧
      th.len = Multiset.card th.pool ∧
      (0 < th.len → th.peekMax.isSome ∧ th.peekMin.isSome) ∧
      (∀ p, th.peekMax = some p →
        ∃ e ∈ th.pool, p = (e.tx, e.gasPrice) ∧ ∀ e' ∈ th.pool, e'.gasPrice ≤ e.gasPrice) ∧
      (∀ p, th.peekMin = some p →
        ∃ e ∈ th.pool, p = (e.tx, e.gasPrice) ∧ ∀ e' ∈ th.pool, e.gasPrice ≤ e'.gasPrice) := by
  obtain ⟨T, hT, hr⟩ := refines_empty.run hrun
  obtain ⟨hord, hpool⟩ := TxHeap.run_ordered_poolRun TxHeap.ordered_empty hT
  refine ⟨hr.consistent hord, ?_, ?_, ?_, hr.peek_isSome, fun _ hp => hr.peekMax_spec hord hp,
    fun _ hp => hr.peekMin_spec hord hp⟩
  · rw [hr.pool_eq]
    exact hpool
  · rw [hr.pool_eq]
    exact T.nodup_map_id_pool
  · rw [hr.len_eq, hr.pool_eq]
    exact T.len_eq_card_pool

/-- A transaction of ID `n`, for the sample run. -/
def sampleTx (n : ℕ) : Tx ℕ ℕ ℕ := ⟨n, [], .ok 0, fun _ => .ok 0⟩

/-- Four pushes, one of them of a held ID, a pop of the cheapest entry and a removal. -/
def sampleOps : List (TxHeapOp ℕ ℕ ℕ) :=
  [.push (sampleTx 1) 5, .push (sampleTx 2) 7, .push (sampleTx 1) 9, .push (sampleTx 3) 3,
    .popMin, .remove 2]

theorem run_newTxHeapRef_consistent_sample :
    ∃ th : TxHeapRef ℕ ℕ ℕ, newTxHeapRef.run sampleOps = some th ∧ th.Consistent ∧
      th.len = 1 ∧ th.peekMax.map Prod.snd = some 5 := by
  have hrun : newTxHeapRef.run sampleOps = some ((newTxHeapRef.run sampleOps).get (by decide)) :=
    (Option.some_get _).symm
  exact ⟨_, hrun, (run_newTxHeapRef_consistent hrun).1, by decide, by decide⟩

end TxHeapRef

end Jeth
