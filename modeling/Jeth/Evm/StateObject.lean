import Mathlib

/-!
# Accounts, state objects and the access list (core/state)

`stateObject` is the live copy of one account inside a `StateDB`: its account data, its code
once loaded, and three layers of storage. Reads go through `dirtyStorage` (written in the
current transaction), then `pendingStorage` (written earlier in the block), then
`originStorage` (the committed values read so far). Only then do they reach the database,
unless the account was destructed in this block, when its committed storage reads as zero. The
database is the snapshot or trie the `StateDB` was opened on. It is fixed while transactions
run, so it is modelled as three lookup functions (`Database`). The read caches
`GetCommittedState` and `Code` fill on a miss hold what the lookup returns and change no later
read, so the model does not fill them.

`ObjectEquiv` relates two objects that no read tells apart. The journal's undo records restore
objects up to it: a reverted storage write leaves the old value in `dirtyStorage`, and a
reverted code change leaves the old code loaded.

`accessList` keeps the addresses and slots of EIP-2929. An address maps to `-1` while it has no
slots, and otherwise to the index of its slot set in `slots`. The slot set of an address is
created with its first slot and appended at the end of `slots`. `DeleteSlot` relies on this: it
drops a slot set that becomes empty by cutting `slots` at its index. `accessList.WF` is what
the additions keep and their undoing needs: every index in use names a non-empty slot set.
-/

/-- Samples across the EVM model take `Fin 2` for addresses. A numeral of `Fin 2` is elaborated
with an instance of `NeZero 2`, which instance search otherwise finds as a compound proof that
Lean lifts out of each definition into an auxiliary theorem; this instance is a constant, so the
numerals keep their proof in place. -/
instance (priority := high) Jeth.neZero_two : NeZero (2 : ℕ) := ⟨two_ne_zero⟩

namespace Jeth.State

/-- `common.Hash`, 32 bytes, for storage keys and values, code hashes and transaction hashes. -/
abbrev Hash := List UInt8

/-- `common.Hash{}`. -/
def zeroHash : Hash := List.replicate 32 0

/-- `types.EmptyCodeHash`, the Keccak-256 hash of no code. -/
def EmptyCodeHash : Hash :=
  [0xc5, 0xd2, 0x46, 0x01, 0x86, 0xf7, 0x23, 0x3c, 0x92, 0x7e, 0x7d, 0xb2, 0xdc, 0xc7, 0x03, 0xc0,
   0xe5, 0x00, 0xb6, 0x53, 0xca, 0x82, 0x27, 0x3b, 0x7b, 0xfa, 0xd8, 0x04, 0x5d, 0x85, 0xa4, 0x70]

/-- `NormalizeCoinID` sets the lowest bit of the first byte: multicoin balances live in the
storage keys with that bit set. -/
def NormalizeCoinID : Hash → Hash
  | [] => []
  | b :: rest => (b ||| 0x01) :: rest

/-- `NormalizeStateKey` clears the lowest bit of the first byte, which keeps ordinary storage
apart from multicoin balances. -/
def NormalizeStateKey : Hash → Hash
  | [] => []
  | b :: rest => (b &&& 0xfe) :: rest

/-- `common.BigToHash`: the big-endian bytes of the absolute value, the last 32 of them. -/
def BigToHash (n : ℤ) : Hash :=
  (List.range 32).reverse.map fun i => UInt8.ofNat (n.natAbs / 256 ^ i)

/-- `Hash.Big`: the hash read as a big-endian unsigned number. -/
def Hash.Big (h : Hash) : ℤ :=
  (h.foldl (fun acc b => acc * 256 + b.toNat) 0 : ℕ)

/-- `types.StateAccount` without its storage root, which only the commit reads. -/
structure StateAccount where
  Nonce : ℕ
  Balance : ℤ
  CodeHash : Hash
  IsMultiCoin : Bool
deriving DecidableEq

/-- `types.NewEmptyStateAccount`. -/
def NewEmptyStateAccount : StateAccount :=
  ⟨0, 0, EmptyCodeHash, false⟩

/-- What a `StateDB` reads from below: the committed accounts (`snap.Account`, or the account
trie), the committed storage of an account (`snap.Storage`, or its storage trie), and code by
hash (`ContractCode`). -/
structure Database (Address : Type) where
  Account : Address → Option StateAccount
  Storage : Address → Hash → Hash
  ContractCode : Hash → List UInt8

/-- `stateObject`. The fields the model leaves out (the storage trie, the original account and
the `dirtyCode` flag) are read only when the state is committed. -/
structure stateObject (Address : Type) where
  address : Address
  data : StateAccount
  code : Option (List UInt8)
  originStorage : Hash → Option Hash
  pendingStorage : Hash → Option Hash
  dirtyStorage : Hash → Option Hash
  selfDestructed : Bool
  deleted : Bool
  created : Bool

variable {Address : Type}

/-- `newObject`: a fresh object for `address`, with the account read from the database or, for
`nil`, an empty one. -/
def newObject (address : Address) (acct : Option StateAccount) : stateObject Address where
  address := address
  data := acct.getD NewEmptyStateAccount
  code := none
  originStorage := fun _ => none
  pendingStorage := fun _ => none
  dirtyStorage := fun _ => none
  selfDestructed := false
  deleted := false
  created := false

@[simp] theorem newObject_address (address : Address) (acct : Option StateAccount) :
    (newObject address acct).address = address := rfl

@[simp] theorem newObject_deleted (address : Address) (acct : Option StateAccount) :
    (newObject address acct).deleted = false := rfl

namespace stateObject

variable (db : Database Address) (destructs : Address → Bool)

/-- `empty`, in the sense of EIP-161, with the multicoin flag counting as content. -/
def empty (o : stateObject Address) : Bool :=
  o.data.Nonce == 0 && o.data.Balance == 0 && o.data.CodeHash == EmptyCodeHash &&
    !o.data.IsMultiCoin

/-- `GetCommittedState`: pending writes, then cached committed values, then the database, where
an account destructed in this block (`destructs`) has no committed storage. -/
def GetCommittedState (o : stateObject Address) (key : Hash) : Hash :=
  match o.pendingStorage key with
  | some value => value
  | none =>
    match o.originStorage key with
    | some value => value
    | none => if destructs o.address then zeroHash else db.Storage o.address key

/-- `GetState`: the transaction's own writes first. -/
def GetState (o : stateObject Address) (key : Hash) : Hash :=
  match o.dirtyStorage key with
  | some value => value
  | none => o.GetCommittedState db destructs key

/-- `BalanceMultiCoin`: the balance of a coin is kept in the storage slot of its normalized id. -/
def BalanceMultiCoin (o : stateObject Address) (coinID : Hash) : ℤ :=
  Hash.Big (o.GetState db destructs (NormalizeCoinID coinID))

/-- `Code`: the loaded code, no code for the empty code hash, or the code the database holds
for the hash. -/
def Code (o : stateObject Address) : List UInt8 :=
  match o.code with
  | some code => code
  | none => if o.data.CodeHash = EmptyCodeHash then [] else db.ContractCode o.data.CodeHash

/-- `setState`. -/
def setState (o : stateObject Address) (key value : Hash) : stateObject Address :=
  { o with dirtyStorage := Function.update o.dirtyStorage key (some value) }

/-- `setCode`. -/
def setCode (o : stateObject Address) (codeHash : Hash) (code : List UInt8) :
    stateObject Address :=
  { o with code := some code, data := { o.data with CodeHash := codeHash } }

/-- `setBalance`. -/
def setBalance (o : stateObject Address) (amount : ℤ) : stateObject Address :=
  { o with data := { o.data with Balance := amount } }

/-- `setNonce`. -/
def setNonce (o : stateObject Address) (nonce : ℕ) : stateObject Address :=
  { o with data := { o.data with Nonce := nonce } }

/-- `enableMultiCoin`. -/
def enableMultiCoin (o : stateObject Address) : stateObject Address :=
  { o with data := { o.data with IsMultiCoin := true } }

/-- `markSelfdestructed`. -/
def markSelfdestructed (o : stateObject Address) : stateObject Address :=
  { o with selfDestructed := true }

@[simp] theorem setState_address (o : stateObject Address) (key value : Hash) :
    (o.setState key value).address = o.address := rfl

@[simp] theorem setState_data (o : stateObject Address) (key value : Hash) :
    (o.setState key value).data = o.data := rfl

@[simp] theorem setState_deleted (o : stateObject Address) (key value : Hash) :
    (o.setState key value).deleted = o.deleted := rfl

@[simp] theorem setCode_address (o : stateObject Address) (codeHash : Hash) (code : List UInt8) :
    (o.setCode codeHash code).address = o.address := rfl

@[simp] theorem setCode_deleted (o : stateObject Address) (codeHash : Hash) (code : List UInt8) :
    (o.setCode codeHash code).deleted = o.deleted := rfl

@[simp] theorem setBalance_address (o : stateObject Address) (amount : ℤ) :
    (o.setBalance amount).address = o.address := rfl

@[simp] theorem setBalance_deleted (o : stateObject Address) (amount : ℤ) :
    (o.setBalance amount).deleted = o.deleted := rfl

@[simp] theorem setNonce_address (o : stateObject Address) (nonce : ℕ) :
    (o.setNonce nonce).address = o.address := rfl

@[simp] theorem setNonce_deleted (o : stateObject Address) (nonce : ℕ) :
    (o.setNonce nonce).deleted = o.deleted := rfl

@[simp] theorem enableMultiCoin_address (o : stateObject Address) :
    o.enableMultiCoin.address = o.address := rfl

@[simp] theorem enableMultiCoin_deleted (o : stateObject Address) :
    o.enableMultiCoin.deleted = o.deleted := rfl

@[simp] theorem markSelfdestructed_address (o : stateObject Address) :
    o.markSelfdestructed.address = o.address := rfl

@[simp] theorem markSelfdestructed_deleted (o : stateObject Address) :
    o.markSelfdestructed.deleted = o.deleted := rfl

/-- A storage write is read back at its key and leaves the other keys alone. -/
theorem GetState_setState (o : stateObject Address) (key value key' : Hash) :
    (o.setState key value).GetState db destructs key' =
      if key' = key then value else o.GetState db destructs key' := by
  by_cases h : key' = key
  · subst h
    simp [GetState, setState]
  · simp only [GetState, setState, Function.update_of_ne h, h, if_false]
    rfl

/-- Loading the code the object reads anyway changes no read of it. -/
theorem Code_setCode_Code (o : stateObject Address) :
    (o.setCode o.data.CodeHash (o.Code db)).Code db = o.Code db := rfl

/-! ## Objects that no read tells apart -/

/-- `o` and `o'` agree on every read, in a state whose destructed accounts are `destructs`. -/
structure ObjectEquiv (o o' : stateObject Address) : Prop where
  address : o.address = o'.address
  data : o.data = o'.data
  code : o.Code db = o'.Code db
  state : ∀ key, o.GetState db destructs key = o'.GetState db destructs key
  selfDestructed : o.selfDestructed = o'.selfDestructed
  deleted : o.deleted = o'.deleted
  created : o.created = o'.created

variable {db destructs}

theorem ObjectEquiv.equivalence : Equivalence (ObjectEquiv db destructs) where
  refl _ := ⟨rfl, rfl, rfl, fun _ => rfl, rfl, rfl, rfl⟩
  symm h := ⟨h.1.symm, h.2.symm, h.3.symm, fun key => (h.4 key).symm, h.5.symm, h.6.symm, h.7.symm⟩
  trans h h' := ⟨h.1.trans h'.1, h.2.trans h'.2, h.3.trans h'.3, fun key => (h.4 key).trans (h'.4 key),
    h.5.trans h'.5, h.6.trans h'.6, h.7.trans h'.7⟩

theorem ObjectEquiv.rfl' (o : stateObject Address) : ObjectEquiv db destructs o o :=
  ObjectEquiv.equivalence.refl o

/-- Reads of an object only look at the destructed flag of its own address. -/
theorem ObjectEquiv.of_destructs {destructs' : Address → Bool} {o o' : stateObject Address}
    (h : ObjectEquiv db destructs o o') (hd : destructs' o.address = destructs o.address) :
    ObjectEquiv db destructs' o o' := by
  have hd' : destructs' o'.address = destructs o'.address := h.address ▸ hd
  refine { h with state := fun key => ?_ }
  have := h.state key
  simp only [GetState, GetCommittedState, hd, hd'] at this ⊢
  exact this

/-- A change of the account data that keeps the code hash keeps objects equivalent. -/
theorem ObjectEquiv.map_data {o o' : stateObject Address} (h : ObjectEquiv db destructs o o')
    (f : StateAccount → StateAccount) (hf : ∀ a, (f a).CodeHash = a.CodeHash) :
    ObjectEquiv db destructs { o with data := f o.data } { o' with data := f o'.data } := by
  refine ⟨h.address, by rw [h.data], ?_, h.state, h.selfDestructed, h.deleted, h.created⟩
  have := h.code
  simp only [Code, hf] at this ⊢
  exact this

theorem ObjectEquiv.setBalance {o o' : stateObject Address} (h : ObjectEquiv db destructs o o')
    (amount : ℤ) : ObjectEquiv db destructs (o.setBalance amount) (o'.setBalance amount) :=
  h.map_data (fun a => { a with Balance := amount }) fun _ => rfl

theorem ObjectEquiv.setNonce {o o' : stateObject Address} (h : ObjectEquiv db destructs o o')
    (nonce : ℕ) : ObjectEquiv db destructs (o.setNonce nonce) (o'.setNonce nonce) :=
  h.map_data (fun a => { a with Nonce := nonce }) fun _ => rfl

theorem ObjectEquiv.setSelfDestructed {o o' : stateObject Address}
    (h : ObjectEquiv db destructs o o') (b : Bool) :
    ObjectEquiv db destructs { o with selfDestructed := b } { o' with selfDestructed := b } :=
  { h with selfDestructed := rfl }

theorem ObjectEquiv.setCode {o o' : stateObject Address} (h : ObjectEquiv db destructs o o')
    (codeHash : Hash) (code : List UInt8) :
    ObjectEquiv db destructs (o.setCode codeHash code) (o'.setCode codeHash code) :=
  ⟨h.address, by simp only [stateObject.setCode, h.data], rfl, h.state, h.selfDestructed,
    h.deleted, h.created⟩

theorem ObjectEquiv.setState {o o' : stateObject Address} (h : ObjectEquiv db destructs o o')
    (key value : Hash) :
    ObjectEquiv db destructs (o.setState key value) (o'.setState key value) := by
  refine ⟨h.address, h.data, h.code, fun key' => ?_, h.selfDestructed, h.deleted, h.created⟩
  simp only [GetState_setState, h.state key']

/-- Writing back the value a key reads already changes no read. -/
theorem ObjectEquiv.setState_GetState (o : stateObject Address) (key : Hash) :
    ObjectEquiv db destructs (o.setState key (o.GetState db destructs key)) o := by
  refine ⟨rfl, rfl, rfl, fun key' => ?_, rfl, rfl, rfl⟩
  rw [GetState_setState]
  split_ifs with h
  · rw [h]
  · rfl

/-- Loading the code the object reads anyway changes no read. -/
theorem ObjectEquiv.setCode_Code (o : stateObject Address) :
    ObjectEquiv db destructs (o.setCode o.data.CodeHash (o.Code db)) o :=
  ⟨rfl, rfl, rfl, fun _ => rfl, rfl, rfl, rfl⟩

end stateObject

/-! ## The access list -/

/-- `accessList`: an address maps to `-1` or to the index of its slot set in `slots`. -/
structure accessList (Address : Type) where
  addresses : Address → Option ℤ
  slots : List (Finset Hash)

namespace accessList

variable [DecidableEq Address] (al : accessList Address)

/-- `ContainsAddress`. -/
def ContainsAddress (address : Address) : Bool :=
  (al.addresses address).isSome

/-- `Contains`: whether the address is present, and whether the slot is. -/
def Contains (address : Address) (slot : Hash) : Bool × Bool :=
  match al.addresses address with
  | none => (false, false)
  | some idx => if idx = -1 then (true, false) else (true, decide (slot ∈ al.slots.getD idx.toNat ∅))

/-- `AddAddress`: adds the address with no slots, and says whether it was absent. -/
def AddAddress (address : Address) : Bool × accessList Address :=
  match al.addresses address with
  | some _ => (false, al)
  | none => (true, { al with addresses := Function.update al.addresses address (some (-1)) })

/-- `AddSlot`: adds the slot, and says whether the address and whether the slot were absent.
An address without a slot set gets a new one at the end of `slots`. -/
def AddSlot (address : Address) (slot : Hash) : (Bool × Bool) × accessList Address :=
  let fresh : accessList Address :=
    { addresses := Function.update al.addresses address (some al.slots.length),
      slots := al.slots ++ [{slot}] }
  match al.addresses address with
  | none => ((true, true), fresh)
  | some idx =>
    if idx = -1 then ((false, true), fresh)
    else
      let slotmap := al.slots.getD idx.toNat ∅
      if slot ∈ slotmap then ((false, false), al)
      else ((false, true), { al with slots := al.slots.set idx.toNat (insert slot slotmap) })

/-- `DeleteSlot`: removes the slot, and a slot set left empty with it, by cutting `slots` at its
index. Go panics on an address that is not present, which the journal never reverts; the model
leaves the list as it is. -/
def DeleteSlot (address : Address) (slot : Hash) : accessList Address :=
  match al.addresses address with
  | none => al
  | some idx =>
    let slotmap := (al.slots.getD idx.toNat ∅).erase slot
    if slotmap = ∅ then
      { addresses := Function.update al.addresses address (some (-1)),
        slots := al.slots.take idx.toNat }
    else { al with slots := al.slots.set idx.toNat slotmap }

/-- `DeleteAddress`. -/
def DeleteAddress (address : Address) : accessList Address :=
  { al with addresses := Function.update al.addresses address none }

/-- An index that is `-1` or names a non-empty set of `slots`. -/
def IndexValid (slots : List (Finset Hash)) (idx : Option ℤ) : Prop :=
  ∀ i ∈ idx, i = -1 ∨ (0 ≤ i ∧ i.toNat < slots.length ∧ slots.getD i.toNat ∅ ≠ ∅)

/-- Every address's index is valid. -/
def WF : Prop :=
  ∀ address, IndexValid al.slots (al.addresses address)

variable {al}

/-- Adding a slot set at the end keeps every index valid: the old ones name the same sets. -/
theorem IndexValid.append {slots : List (Finset Hash)} {idx : Option ℤ}
    (h : IndexValid slots idx) (slotmap : Finset Hash) : IndexValid (slots ++ [slotmap]) idx := by
  intro i hi
  rcases h i hi with h | ⟨h0, hlt, hne⟩
  · exact .inl h
  · refine .inr ⟨h0, by simp; omega, ?_⟩
    rwa [List.getD_eq_getElem?_getD, List.getElem?_append_left hlt, ← List.getD_eq_getElem?_getD]

theorem AddAddress_wf (h : al.WF) (address : Address) : (al.AddAddress address).2.WF := by
  unfold AddAddress
  split
  · exact h
  · intro a
    by_cases ha : a = address
    · subst ha
      simp [IndexValid]
    · simpa [Function.update_of_ne ha] using h a

theorem AddSlot_wf (h : al.WF) (address : Address) (slot : Hash) :
    (al.AddSlot address slot).2.WF := by
  have hfresh : (⟨Function.update al.addresses address (some al.slots.length),
      al.slots ++ [{slot}]⟩ : accessList Address).WF := by
    intro a
    by_cases ha : a = address
    · subst ha
      simp only [IndexValid, Function.update_self, Option.mem_def, Option.some.injEq,
        forall_eq']
      exact .inr ⟨by omega, by simp, by simp [List.getD_eq_getElem?_getD]⟩
    · simpa [Function.update_of_ne ha] using (h a).append {slot}
  unfold AddSlot
  split
  · exact hfresh
  · rename_i idx hidx
    dsimp only
    split_ifs with h1 h2
    · exact hfresh
    · exact h
    · -- the slot joins the address's own set, which stays where it is
      have hlt : idx.toNat < al.slots.length := by
        rcases h address idx hidx with h' | ⟨-, hlt, -⟩
        · exact absurd h' h1
        · exact hlt
      intro a i hi
      rcases h a i hi with h' | ⟨h0, hlt', hne⟩
      · exact .inl h'
      · refine .inr ⟨h0, by simpa using hlt', ?_⟩
        rw [List.getD_eq_getElem?_getD, List.getElem?_set]
        split_ifs with heq
        · simp [hlt]
        · rwa [← List.getD_eq_getElem?_getD]

/-! ### What each addition does, and how its entries take it back -/

theorem AddAddress_of_some {address : Address} {idx : ℤ} (h : al.addresses address = some idx) :
    al.AddAddress address = (false, al) := by
  simp [AddAddress, h]

theorem AddSlot_of_none {address : Address} (h : al.addresses address = none) (slot : Hash) :
    al.AddSlot address slot = ((true, true),
      ⟨Function.update al.addresses address (some al.slots.length), al.slots ++ [{slot}]⟩) := by
  simp [AddSlot, h]

theorem AddSlot_of_minus_one {address : Address} (h : al.addresses address = some (-1))
    (slot : Hash) : al.AddSlot address slot = ((false, true),
      ⟨Function.update al.addresses address (some al.slots.length), al.slots ++ [{slot}]⟩) := by
  simp [AddSlot, h]

theorem AddSlot_of_mem {address : Address} {idx : ℤ} (h : al.addresses address = some idx)
    (hidx : idx ≠ -1) {slot : Hash} (hs : slot ∈ al.slots.getD idx.toNat ∅) :
    al.AddSlot address slot = ((false, false), al) := by
  simp only [AddSlot, h, hidx, hs, if_false, if_true]

theorem AddSlot_of_not_mem {address : Address} {idx : ℤ} (h : al.addresses address = some idx)
    (hidx : idx ≠ -1) {slot : Hash} (hs : slot ∉ al.slots.getD idx.toNat ∅) :
    al.AddSlot address slot = ((false, true),
      { al with slots := al.slots.set idx.toNat (insert slot (al.slots.getD idx.toNat ∅)) }) := by
  simp only [AddSlot, h, hidx, hs, if_false]

/-- An address with no slots is a valid index. -/
theorem WF_update_minus_one (h : al.WF) (address : Address) :
    ({ al with addresses := Function.update al.addresses address (some (-1)) } :
      accessList Address).WF := by
  intro a
  by_cases ha : a = address
  · subst ha
    simp [IndexValid]
  · simpa [Function.update_of_ne ha] using h a

/-- Deleting an address that `AddAddress` added gives the list back. -/
theorem DeleteAddress_AddAddress (address : Address) (h : (al.AddAddress address).1 = true) :
    (al.AddAddress address).2.DeleteAddress address = al := by
  unfold AddAddress at h ⊢
  split at h
  · cases h
  · rename_i hnone
    simp only [DeleteAddress, Function.update_idem]
    rw [← hnone, Function.update_eq_self]

/-- `DeleteSlot` takes back a slot that `AddSlot` put in a fresh slot set at the end of `slots`:
the set is cut off again, and the address is left with index `-1`. -/
theorem DeleteSlot_fresh (address : Address) (slot : Hash) :
    ({ addresses := Function.update al.addresses address (some al.slots.length),
       slots := al.slots ++ [{slot}] } : accessList Address).DeleteSlot address slot =
      { al with addresses := Function.update al.addresses address (some (-1)) } := by
  simp [DeleteSlot, List.getD_eq_getElem?_getD]

/-- `DeleteSlot` takes back a slot that `AddSlot` added to an existing, non-empty slot set. -/
theorem DeleteSlot_set {address : Address} {slot : Hash} {idx : ℤ}
    (hidx : al.addresses address = some idx) (hlt : idx.toNat < al.slots.length)
    (hne : al.slots.getD idx.toNat ∅ ≠ ∅) (hslot : slot ∉ al.slots.getD idx.toNat ∅) :
    ({ al with slots := al.slots.set idx.toNat (insert slot (al.slots.getD idx.toNat ∅)) } :
      accessList Address).DeleteSlot address slot = al := by
  have hget : (al.slots.set idx.toNat (insert slot (al.slots.getD idx.toNat ∅))).getD idx.toNat ∅ =
      insert slot (al.slots.getD idx.toNat ∅) := by
    simp [List.getD_eq_getElem?_getD, hlt]
  simp only [DeleteSlot, hidx, hget, Finset.erase_insert hslot, hne, if_false]
  congr 1
  rw [List.set_set, List.getD_eq_getElem?_getD, List.getElem?_eq_getElem hlt, Option.getD_some,
    List.set_getElem_self]

/-- A fresh slot set for an address that had none: the slot's entry gives the address back
with index `-1`, and the address's entry removes it. -/
theorem DeleteAddress_DeleteSlot_fresh {address : Address} (h : al.addresses address = none)
    (slot : Hash) :
    ((⟨Function.update al.addresses address (some al.slots.length), al.slots ++ [{slot}]⟩ :
      accessList Address).DeleteSlot address slot).DeleteAddress address = al := by
  rw [DeleteSlot_fresh]
  simp only [DeleteAddress, Function.update_idem]
  rw [← h, Function.update_eq_self]

theorem DeleteSlot_fresh_of_minus_one {address : Address} (h : al.addresses address = some (-1))
    (slot : Hash) :
    (⟨Function.update al.addresses address (some al.slots.length), al.slots ++ [{slot}]⟩ :
      accessList Address).DeleteSlot address slot = al := by
  rw [DeleteSlot_fresh, ← h, Function.update_eq_self]

end accessList

end Jeth.State
