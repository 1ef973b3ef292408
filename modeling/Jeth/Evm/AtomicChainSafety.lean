import Jeth.Evm.AtomicChain

/-!
# No atomic input is spent twice along a chain

Along the chain of any block the VM of `Jeth.Evm.AtomicChain` holds, from the genesis block up,
no two atomic transactions of distinct blocks spend an input in common, and neither do two of
one block. Bonus blocks are left out: their atomic operations never reach shared memory.

Four facts share the work, each for a transaction of a block verified on a parent:
* an import against an import of a processing ancestor: `conflicts` walks the processing
  ancestors;
* an import against an accepted import: the accepted block removed the UTXO from shared memory,
  where the import's `SemanticVerify` fetches it;
* an export against an export: an input is named by its nonce and address, the state transfer
  checks the nonce, and the exports of the parent's chain have raised the nonces of their
  addresses past those they named;
* `verifyTxs` refuses two transactions of one block that spend one input.
An import and an export never spend one input: the import names its UTXOs by the hash
`inputID`, the export packs a nonce and an address, and the two never meet.

The run invariant `Inv` holds of the initial VM (`Inv.init`) and each event keeps it
(`Inv.step`). Its `Shape` part is the tree of blocks: each block stored under its ID, parents one
height lower down to the accepted genesis block, and the accepted blocks closed under parents.
-/

namespace Jeth.AtomicChain

open Ancestry

variable {ID Address Owner Cred V : Type} [LinearOrder ID] [LinearOrder Address]
  {sourceOf : ID → ID} (env : ChainEnv ID Address Owner Cred V)

section Invariant

variable [CheckedArith] [FlowChecker ID]

/-- An address a credential signs for. -/
def Signer (a : Address) : Prop := ∃ cred, env.credAddress cred = .ok a

/-- No atomic input is spent twice along the chain ending at `b` in `blocks`: the transactions of
a block spend pairwise distinct inputs, and so do two transactions of distinct blocks. Bonus
blocks are left out. -/
structure ConflictFree (blocks : ID → Option (Block ID Address Owner Cred))
    (b : Block ID Address Owner Cred) : Prop where
  within : ∀ c, InChain Block.parent Block.height blocks c b → env.isBonus c = false →
    c.atomicTxs.Pairwise fun t t' => (t.InputUTXOs env.ctx).Disjoint (t'.InputUTXOs env.ctx)
  across : ∀ c c', InChain Block.parent Block.height blocks c b →
    InChain Block.parent Block.height blocks c' b → c ≠ c' → env.isBonus c = false →
    env.isBonus c' = false → ∀ t ∈ c.atomicTxs, ∀ t' ∈ c'.atomicTxs,
      (t.InputUTXOs env.ctx).Disjoint (t'.InputUTXOs env.ctx)

omit [LinearOrder ID] [LinearOrder Address] [CheckedArith] [FlowChecker ID] in
/-- Conflict freedom is about the chain only. -/
theorem ConflictFree.of_chain {blocks blocks' : ID → Option (Block ID Address Owner Cred)}
    {b : Block ID Address Owner Cred} (h : ConflictFree env blocks b)
    (hchain : ∀ c, InChain Block.parent Block.height blocks' c b →
      InChain Block.parent Block.height blocks c b) :
    ConflictFree env blocks' b where
  within c hc := h.within c (hchain c hc)
  across c c' hc hc' := h.across c c' (hchain c hc) (hchain c' hc')

/-- The shape of the VM's store. -/
structure Shape (vm : VM ID Address Owner Cred V sourceOf) : Prop where
  /-- Each block is stored under its ID. -/
  id : ∀ i b, vm.blocks i = some b → b.id = i
  /-- The stored blocks are those of known status. -/
  known : ∀ i, vm.blocks i = none ↔ vm.status i = .Unknown
  /-- A block above height `0` has its parent stored, one height lower. -/
  parent : ∀ i b, vm.blocks i = some b → b.height ≠ 0 →
    ∃ p, vm.blocks b.parent = some p ∧ p.height + 1 = b.height
  /-- The blocks at height `0` are accepted. -/
  genesis : ∀ i b, vm.blocks i = some b → b.height = 0 → vm.status i = .Accepted
  /-- The parent of an accepted block is accepted. -/
  accepted : ∀ i b, vm.blocks i = some b → vm.status i = .Accepted → b.height ≠ 0 →
    vm.status b.parent = .Accepted
  /-- The last accepted block is accepted. -/
  lastAccepted : vm.status vm.lastAccepted = .Accepted

/-- The run invariant: the shape of the store, and the atomic facts the checks of a new block
rely on. -/
structure Inv (vm : VM ID Address Owner Cred V sourceOf) : Prop extends Shape vm where
  /-- An import of a stored block, but for a bonus block, takes its UTXOs from the chain that
  holds them. -/
  source : ∀ i b, vm.blocks i = some b → env.isBonus b = false → ∀ atomicTx ∈ b.atomicTxs,
    ∀ utx, atomicTx.tx.unsignedAtomicTx = .importTx utx → ∀ k ∈ utx.InputUTXOs env.ctx,
      utx.sourceChain = sourceOf k
  /-- An accepted import, but for a bonus block, has removed its UTXOs from shared memory. -/
  removed : ∀ i b, vm.blocks i = some b → vm.status i = .Accepted → env.isBonus b = false →
    ∀ atomicTx ∈ b.atomicTxs, ∀ utx, atomicTx.tx.unsignedAtomicTx = .importTx utx →
      ∀ k ∈ utx.InputUTXOs env.ctx, vm.sharedMemory.removed utx.sourceChain k = true
  /-- Each export along a chain names, for an address that signs, a nonce below the address's
  nonce in the state of the chain's last block. -/
  nonce : ∀ i b s, vm.blocks i = some b → vm.states i = some s →
    ∀ c, InChain Block.parent Block.height vm.blocks c b → ∀ atomicTx ∈ c.atomicTxs,
      ∀ utx, atomicTx.tx.unsignedAtomicTx = .exportTx utx → ∀ input ∈ utx.ins,
        Signer env input.address → input.nonce < s.nonce input.address
  /-- The chain of every stored block is conflict-free. -/
  conflictFree : ∀ i b, vm.blocks i = some b → ConflictFree env vm.blocks b

/-! ## Chains of stored blocks -/

namespace Shape

variable {vm : VM ID Address Owner Cred V sourceOf}

omit [LinearOrder ID] [LinearOrder Address] [CheckedArith] [FlowChecker ID] in
/-- The parent of a stored block is stored under its ID, one height lower. -/
theorem parent_stored (hshape : Shape vm) (x p : Block ID Address Owner Cred)
    (hx : vm.blocks x.id = some x) (hne : x.height ≠ 0) (hp : vm.blocks x.parent = some p) :
    vm.blocks p.id = some p ∧ p.height + 1 = x.height := by
  obtain ⟨p', hp', hheight⟩ := hshape.parent _ _ hx hne
  rw [hp] at hp'
  cases hp'
  exact ⟨by rw [hshape.id _ _ hp]; exact hp, hheight⟩

omit [LinearOrder ID] [LinearOrder Address] [CheckedArith] [FlowChecker ID] in
theorem stored_of_inChain (hshape : Shape vm) {c b : Block ID Address Owner Cred}
    (h : InChain Block.parent Block.height vm.blocks c b) (hb : vm.blocks b.id = some b) :
    vm.blocks c.id = some c :=
  h.of_parent (fun x => vm.blocks x.id = some x)
    (fun x p hx hne hp => (hshape.parent_stored x p hx hne hp).1) hb

omit [LinearOrder ID] [LinearOrder Address] [CheckedArith] [FlowChecker ID] in
/-- A chain, in a grown store, from a block stored before is a chain of the old store. -/
theorem inChain_of_grown (hshape : Shape vm)
    {blocks' : ID → Option (Block ID Address Owner Cred)}
    (hgrow : ∀ i x, vm.blocks i = some x → blocks' i = some x) {c x : Block ID Address Owner Cred}
    (h : InChain Block.parent Block.height blocks' c x) (hx : vm.blocks x.id = some x) :
    InChain Block.parent Block.height vm.blocks c x := by
  refine (h.of_grown (fun x => vm.blocks x.id = some x) (fun y p hy hne hp => ?_) hx).1
  obtain ⟨p', hp', -⟩ := hshape.parent _ _ hy hne
  have hpp' : p' = p := Option.some.inj ((hgrow _ _ hp').symm.trans hp)
  subst hpp'
  exact ⟨hp', (hshape.parent_stored y p' hy hne hp').1⟩

omit [LinearOrder Address] [CheckedArith] [FlowChecker ID] in
/-- The chain of a block inserted on a stored parent: the block, then the parent's chain. -/
theorem inChain_insert (hshape : Shape vm) {b parent : Block ID Address Owner Cred}
    (hfree : vm.blocks b.id = none) (hparent : vm.blocks b.parent = some parent)
    (state : EVMState ID Address) {c : Block ID Address Owner Cred}
    (h : InChain Block.parent Block.height (vm.insert b state).blocks c b) :
    c = b ∨ InChain Block.parent Block.height vm.blocks c parent := by
  rcases inChain_iff.mp h with rfl | ⟨p, -, hp, hcp⟩
  · exact .inl rfl
  · have hne : b.parent ≠ b.id := fun heq => by rw [heq, hfree] at hparent; cases hparent
    rw [VM.insert_blocks, Function.update_of_ne hne, hparent] at hp
    cases hp
    refine .inr (hshape.inChain_of_grown (fun i x hx => VM.insert_blocks_of_some state hfree hx)
      hcp ?_)
    rw [hshape.id _ _ hparent]
    exact hparent

omit [LinearOrder Address] [CheckedArith] [FlowChecker ID] in
/-- Inserting a block of unknown status on a stored parent one height lower keeps the shape. -/
theorem insert (hshape : Shape vm) {b parent : Block ID Address Owner Cred}
    (hunknown : vm.status b.id = .Unknown) (hparent : vm.blocks b.parent = some parent)
    (hheight : parent.height + 1 = b.height) (state : EVMState ID Address) :
    Shape (vm.insert b state) := by
  have hfree : vm.blocks b.id = none := (hshape.known b.id).mpr hunknown
  have hgrow := fun i x (hx : vm.blocks i = some x) => VM.insert_blocks_of_some state hfree hx
  -- the parent of a stored block, and the last accepted block, are known, so not `b`
  have hknown : ∀ i, vm.status i ≠ .Unknown → i ≠ b.id := fun i hi heq => hi (heq ▸ hunknown)
  have haccepted : ∀ i, vm.status i = .Accepted → i ≠ b.id :=
    fun i hi => hknown i (by rw [hi]; simp)
  refine ⟨fun i x hx => ?_, fun i => ?_, fun i x hx hne => ?_, fun i x hx hzero => ?_,
    fun i x hx hacc hne => ?_, ?_⟩
  · by_cases hi : i = b.id
    · subst hi
      simp only [VM.insert_blocks, Function.update_self, Option.some.injEq] at hx
      rw [← hx]
    · rw [VM.insert_blocks, Function.update_of_ne hi] at hx
      exact hshape.id _ _ hx
  · by_cases hi : i = b.id
    · subst hi
      simp
    · simp only [VM.insert_blocks, VM.insert_status, Function.update_of_ne hi]
      exact hshape.known i
  · by_cases hi : i = b.id
    · subst hi
      simp only [VM.insert_blocks, Function.update_self, Option.some.injEq] at hx
      subst hx
      exact ⟨parent, hgrow _ _ hparent, hheight⟩
    · rw [VM.insert_blocks, Function.update_of_ne hi] at hx
      obtain ⟨p, hp, hpheight⟩ := hshape.parent _ _ hx hne
      exact ⟨p, hgrow _ _ hp, hpheight⟩
  · by_cases hi : i = b.id
    · subst hi
      simp only [VM.insert_blocks, Function.update_self, Option.some.injEq] at hx
      subst hx
      omega
    · rw [VM.insert_blocks, Function.update_of_ne hi] at hx
      rw [VM.insert_status, Function.update_of_ne hi]
      exact hshape.genesis _ _ hx hzero
  · by_cases hi : i = b.id
    · subst hi
      simp at hacc
    · rw [VM.insert_blocks, Function.update_of_ne hi] at hx
      rw [VM.insert_status, Function.update_of_ne hi] at hacc
      have hpacc := hshape.accepted _ _ hx hacc hne
      rw [VM.insert_status, Function.update_of_ne (haccepted _ hpacc)]
      exact hpacc
  · rw [VM.insert_status, VM.insert_lastAccepted,
      Function.update_of_ne (haccepted _ hshape.lastAccepted)]
    exact hshape.lastAccepted

omit [LinearOrder Address] [CheckedArith] [FlowChecker ID] in
/-- Setting a status to accepted keeps every accepted block accepted. -/
theorem accepted_update_accepted {status : ID → Status} {blkID y : ID}
    (h : status y = .Accepted) : Function.update status blkID .Accepted y = .Accepted := by
  by_cases hy : y = blkID
  · subst hy
    exact Function.update_self ..
  · rw [Function.update_of_ne hy]
    exact h

omit [LinearOrder Address] [CheckedArith] [FlowChecker ID] in
/-- Accepting a stored processing block whose parent is the last accepted block keeps the
shape. -/
theorem accept (hshape : Shape vm) {b : Block ID Address Owner Cred} {blkID : ID}
    (hb : vm.blocks blkID = some b) (hprocessing : vm.status blkID = .Processing)
    (hparent : b.parent = vm.lastAccepted) (m : SharedMemory ID V sourceOf) :
    Shape { vm with
      status := Function.update vm.status blkID .Accepted
      lastAccepted := blkID
      sharedMemory := m } := by
  refine ⟨hshape.id, fun i => ?_, hshape.parent, fun i x hx hzero => ?_,
    fun i x hx hacc hne => ?_, Function.update_self ..⟩
  · by_cases hi : i = blkID
    · subst hi
      simp [hb]
    · simp only [Function.update_of_ne hi]
      exact hshape.known i
  · exact accepted_update_accepted (hshape.genesis _ _ hx hzero)
  · dsimp only at hx hacc ⊢
    by_cases hi : i = blkID
    · -- the accepted block's parent is the last accepted block
      subst hi
      rw [hb] at hx
      cases hx
      rw [hparent]
      exact accepted_update_accepted hshape.lastAccepted
    · rw [Function.update_of_ne hi] at hacc
      exact accepted_update_accepted (hshape.accepted _ _ hx hacc hne)

omit [LinearOrder Address] [CheckedArith] [FlowChecker ID] in
/-- Rejecting a processing block keeps the shape: a processing block is neither unknown, nor
accepted, nor the parent of an accepted block. -/
theorem reject (hshape : Shape vm) {blkID : ID} (hprocessing : vm.status blkID = .Processing) :
    Shape { vm with status := Function.update vm.status blkID .Rejected } := by
  have haccepted : ∀ i, vm.status i = .Accepted → i ≠ blkID := fun i hi heq => by
    rw [heq, hprocessing] at hi
    cases hi
  refine ⟨hshape.id, fun i => ?_, hshape.parent, fun i x hx hzero => ?_,
    fun i x hx hacc hne => ?_, ?_⟩
  · by_cases hi : i = blkID
    · subst hi
      have hstored : vm.blocks i ≠ none := fun h => by
        rw [(hshape.known i).mp h] at hprocessing
        cases hprocessing
      simp [hstored]
    · simp only [Function.update_of_ne hi]
      exact hshape.known i
  · have hgenesis := hshape.genesis _ _ hx hzero
    dsimp only
    rw [Function.update_of_ne (haccepted _ hgenesis)]
    exact hgenesis
  · dsimp only at hacc ⊢
    by_cases hi : i = blkID
    · subst hi
      simp at hacc
    · rw [Function.update_of_ne hi] at hacc
      have hpacc := hshape.accepted _ _ hx hacc hne
      rw [Function.update_of_ne (haccepted _ hpacc)]
      exact hpacc
  · dsimp only
    rw [Function.update_of_ne (haccepted _ hshape.lastAccepted)]
    exact hshape.lastAccepted

/-- Every event keeps the shape of the store: a verified block goes in on a stored parent one
height lower, an accepted block is a processing child of the last accepted one, and a rejected
block is processing. -/
theorem step (hshape : Shape vm) (e : Event ID Address Owner Cred V) :
    Shape (vm.step env e) := by
  cases e with
  | verify b =>
    simp only [VM.step]
    split
    · next vm' hverify =>
      rcases VM.Verify_eq_ok hverify with rfl | ⟨hunknown, hinsert⟩
      · exact hshape
      · obtain ⟨parent, -, -, s₂, hparent, -, hheight, -, -, rfl⟩ :=
          VM.InsertBlockManual_eq_ok hinsert
        exact hshape.insert hunknown hparent hheight s₂
    · exact hshape
  | accept blkID =>
    simp only [VM.step]
    cases haccept : vm.Accept env blkID with
    | none => exact hshape
    | some vm' =>
      obtain ⟨b, hb, hprocessing, hparent, rfl⟩ := VM.Accept_eq_some haccept
      exact hshape.accept hb hprocessing hparent _
  | reject blkID =>
    simp only [VM.step]
    cases hreject : vm.Reject blkID with
    | none => exact hshape
    | some vm' =>
      obtain ⟨hprocessing, rfl⟩ := VM.Reject_eq_some hreject
      exact hshape.reject hprocessing
  | put key value =>
    exact ⟨hshape.id, hshape.known, hshape.parent, hshape.genesis, hshape.accepted,
      hshape.lastAccepted⟩

/-- The shape holds after every run. -/
theorem run (hshape : Shape vm) (events : List (Event ID Address Owner Cred V)) :
    Shape (vm.run env events) := by
  induction events generalizing vm with
  | nil => exact hshape
  | cons e events ih => exact ih (hshape.step env e)

end Shape

/-! ## The inputs of a new block -/

omit [LinearOrder ID] [LinearOrder Address] [CheckedArith] [FlowChecker ID] in
/-- An import and an export never spend one input: the one names its UTXOs by `inputID`, the
other packs a nonce and an address. -/
theorem disjoint_importTx_exportTx
    (hdisjoint : ∀ txID i n a, env.ctx.inputID txID i ≠ env.ctx.packNonceAddress n a)
    (utx : UnsignedImportTx ID Address) (utx' : UnsignedExportTx ID Address Owner) :
    (utx.InputUTXOs env.ctx).Disjoint (utx'.InputUTXOs env.ctx) := by
  intro k hk hk'
  simp only [UnsignedImportTx.InputUTXOs, UnsignedExportTx.InputUTXOs, List.mem_map] at hk hk'
  obtain ⟨input, -, rfl⟩ := hk
  obtain ⟨input', -, hkey⟩ := hk'
  exact hdisjoint _ _ _ _ hkey.symm

namespace Inv

variable {env} {vm vm' : VM ID Address Owner Cred V sourceOf}

/-- An import verified on a stored parent spends no input of an import of a non-bonus block of
the parent's chain: `conflicts` walks a processing block, and an accepted block removed its
UTXOs from the one chain that holds them, where the new import fetches them. -/
theorem fresh_importTx_importTx (hinv : Inv env vm) (hboot : env.bootstrapped = true)
    {parent : Block ID Address Owner Cred} (hparent : vm.blocks parent.id = some parent)
    {atomicTx : SignedTx ID Address Owner Cred} {baseFee : Option ℕ} {rules : Rules}
    {utx : UnsignedImportTx ID Address} (hutx : atomicTx.tx.unsignedAtomicTx = .importTx utx)
    (hsv : vm.SemanticVerify env parent atomicTx baseFee rules = .ok ())
    {c : Block ID Address Owner Cred} (hc : InChain Block.parent Block.height vm.blocks c parent)
    (hbonus : env.isBonus c = false) {atomicTx' : SignedTx ID Address Owner Cred}
    (ht' : atomicTx' ∈ c.atomicTxs) {utx' : UnsignedImportTx ID Address}
    (hutx' : atomicTx'.tx.unsignedAtomicTx = .importTx utx') :
    (utx.InputUTXOs env.ctx).Disjoint (utx'.InputUTXOs env.ctx) := by
  intro k hk hk'
  obtain ⟨hvalues, hconflicts⟩ :=
    VM.importUTXOChecks_eq_ok (VM.SemanticVerify_importTx hboot hutx hsv)
  have hcstored := hinv.stored_of_inChain hc hparent
  by_cases hacc : vm.status c.id = .Accepted
  · obtain ⟨v, hv⟩ := Option.ne_none_iff_exists'.mp (hvalues k hk)
    have hsource : utx.sourceChain = sourceOf k := vm.sharedMemory.values_source _ _ _ hv
    have hsource' : utx'.sourceChain = sourceOf k :=
      hinv.source _ _ hcstored hbonus atomicTx' ht' utx' hutx' k hk'
    have hremoved := hinv.removed _ _ hcstored hacc hbonus atomicTx' ht' utx' hutx' k hk'
    rw [hsource', ← hsource] at hremoved
    rw [vm.sharedMemory.values_removed _ _ hremoved] at hv
    cases hv
  · exact VM.conflictsLoop_eq_ok hinv.id hinv.accepted _ parent hparent hconflicts c hc hacc
      atomicTx' ht' k (by rw [SignedTx.InputUTXOs_of_importTx env.ctx hutx']; exact hk') hk

/-- An export verified on a stored parent spends no input of an export of the parent's chain:
the two inputs would name one nonce of one address, which a credential of the new export signs
for; the chain's export raised that nonce in the parent's state, and the new export's input names
at least the parent's nonce. -/
theorem fresh_exportTx_exportTx (hinv : Inv env vm)
    (hpack : ∀ n a n' a', env.ctx.packNonceAddress n a = env.ctx.packNonceAddress n' a' →
      n = n' ∧ a = a')
    {parent : Block ID Address Owner Cred} (hparent : vm.blocks parent.id = some parent)
    {sParent : EVMState ID Address} (hsParent : vm.states parent.id = some sParent)
    {atomicTx : SignedTx ID Address Owner Cred} {baseFee : Option ℕ} {rules : Rules}
    {utx : UnsignedExportTx ID Address Owner} (hutx : atomicTx.tx.unsignedAtomicTx = .exportTx utx)
    (hsv : vm.SemanticVerify env parent atomicTx baseFee rules = .ok ())
    (hnonces : ∀ input ∈ utx.ins, Signer env input.address →
      sParent.nonce input.address ≤ input.nonce)
    {c : Block ID Address Owner Cred} (hc : InChain Block.parent Block.height vm.blocks c parent)
    {atomicTx' : SignedTx ID Address Owner Cred} (ht' : atomicTx' ∈ c.atomicTxs)
    {utx' : UnsignedExportTx ID Address Owner}
    (hutx' : atomicTx'.tx.unsignedAtomicTx = .exportTx utx') :
    (utx.InputUTXOs env.ctx).Disjoint (utx'.InputUTXOs env.ctx) := by
  intro k hk hk'
  simp only [UnsignedExportTx.InputUTXOs, List.mem_map] at hk hk'
  obtain ⟨input, hinput, rfl⟩ := hk
  obtain ⟨input', hinput', hkey⟩ := hk'
  obtain ⟨hnonce, haddress⟩ := hpack _ _ _ _ hkey
  have hsigner : Signer env input.address := VM.SemanticVerify_exportTx hutx hsv input hinput
  have hlt := hinv.nonce _ _ _ hparent hsParent c hc atomicTx' ht' utx' hutx' input' hinput'
    (by rw [haddress]; exact hsigner)
  have hle := hnonces input hinput hsigner
  rw [hnonce, haddress] at hlt
  omega

/-- The transactions of a block verified on a stored parent spend no input of a transaction of a
non-bonus block of the parent's chain. -/
theorem fresh (hinv : Inv env vm) (hboot : env.bootstrapped = true)
    (hpack : ∀ n a n' a', env.ctx.packNonceAddress n a = env.ctx.packNonceAddress n' a' →
      n = n' ∧ a = a')
    (hdisjoint : ∀ txID i n a, env.ctx.inputID txID i ≠ env.ctx.packNonceAddress n a)
    {parent : Block ID Address Owner Cred} (hparent : vm.blocks parent.id = some parent)
    {sParent : EVMState ID Address} (hsParent : vm.states parent.id = some sParent)
    {txs : List (SignedTx ID Address Owner Cred)} {baseFee : Option ℕ} {rules : Rules}
    (hsv : ∀ atomicTx ∈ txs, vm.SemanticVerify env parent atomicTx baseFee rules = .ok ())
    (hnonces : ∀ atomicTx ∈ txs, ∀ utx, atomicTx.tx.unsignedAtomicTx = .exportTx utx →
      ∀ input ∈ utx.ins, Signer env input.address → sParent.nonce input.address ≤ input.nonce)
    {c : Block ID Address Owner Cred} (hc : InChain Block.parent Block.height vm.blocks c parent)
    (hbonus : env.isBonus c = false) :
    ∀ atomicTx ∈ txs, ∀ atomicTx' ∈ c.atomicTxs,
      (atomicTx.InputUTXOs env.ctx).Disjoint (atomicTx'.InputUTXOs env.ctx) := by
  intro atomicTx ht atomicTx' ht'
  -- one case for each kind of the two transactions
  cases hutx : atomicTx.tx.unsignedAtomicTx with
  | importTx utx =>
    rw [SignedTx.InputUTXOs_of_importTx env.ctx hutx]
    cases hutx' : atomicTx'.tx.unsignedAtomicTx with
    | importTx utx' =>
      rw [SignedTx.InputUTXOs_of_importTx env.ctx hutx']
      exact hinv.fresh_importTx_importTx hboot hparent hutx (hsv atomicTx ht) hc hbonus ht' hutx'
    | exportTx utx' =>
      rw [SignedTx.InputUTXOs_of_exportTx env.ctx hutx']
      exact disjoint_importTx_exportTx env hdisjoint utx utx'
  | exportTx utx =>
    rw [SignedTx.InputUTXOs_of_exportTx env.ctx hutx]
    cases hutx' : atomicTx'.tx.unsignedAtomicTx with
    | importTx utx' =>
      rw [SignedTx.InputUTXOs_of_importTx env.ctx hutx']
      exact (disjoint_importTx_exportTx env hdisjoint utx' utx).symm
    | exportTx utx' =>
      rw [SignedTx.InputUTXOs_of_exportTx env.ctx hutx']
      exact hinv.fresh_exportTx_exportTx hpack hparent hsParent hutx (hsv atomicTx ht)
        (hnonces atomicTx ht utx hutx) hc ht' hutx'

/-! ## Each event keeps the invariant -/

omit [CheckedArith] [FlowChecker ID] in
/-- The nonces after inserting a block on a stored parent: the block's exports raised their
nonces, and so did the exports of the parent's chain, whose addresses the block's own run never
lowers. -/
theorem insert_nonce (hinv : Inv env vm) {b parent : Block ID Address Owner Cred}
    (hfree : vm.blocks b.id = none) (hparent : vm.blocks b.parent = some parent)
    {sParent s₁ s₂ : EVMState ID Address} (hsParent : vm.states b.parent = some sParent)
    (hexecute : env.execute b sParent = .ok s₁)
    (htransfer : b.atomicTxs.foldlM
      (fun state atomicTx => atomicTx.tx.unsignedAtomicTx.EVMStateTransfer env.ctx state) s₁ =
        .ok s₂) :
    ∀ i x s, (vm.insert b s₂).blocks i = some x → (vm.insert b s₂).states i = some s →
      ∀ c, InChain Block.parent Block.height (vm.insert b s₂).blocks c x →
        ∀ atomicTx ∈ c.atomicTxs, ∀ utx, atomicTx.tx.unsignedAtomicTx = .exportTx utx →
          ∀ input ∈ utx.ins, Signer env input.address → input.nonce < s.nonce input.address := by
  obtain ⟨hmono, hexport⟩ := VM.nonce_foldlM_EVMStateTransfer b.atomicTxs s₁ htransfer
  intro i x s hx hs c hc atomicTx ht utx hutx input hinput hsigner
  by_cases hi : i = b.id
  · subst hi
    simp only [VM.insert_blocks, Function.update_self, Option.some.injEq] at hx
    simp only [VM.insert_states, Function.update_self, Option.some.injEq] at hs
    subst hx hs
    rcases hinv.inChain_insert hfree hparent s₂ hc with rfl | hc
    · exact (hexport atomicTx ht utx hutx input hinput).2
    · -- an export of the parent's chain: below the parent's nonce, which the block only raises
      have hpstored : vm.blocks parent.id = some parent := by
        rw [hinv.id _ _ hparent]; exact hparent
      have hsParent' : vm.states parent.id = some sParent := by
        rw [hinv.id _ _ hparent]; exact hsParent
      have hlt := hinv.nonce _ _ _ hpstored hsParent' c hc atomicTx ht utx hutx input hinput hsigner
      have hle₁ := env.execute_nonce _ _ _ _ hexecute hsigner
      have hle₂ := hmono input.address
      omega
  · rw [VM.insert_blocks, Function.update_of_ne hi] at hx
    rw [VM.insert_states, Function.update_of_ne hi] at hs
    have hxstored : vm.blocks x.id = some x := by rw [hinv.id _ _ hx]; exact hx
    have hc' := hinv.inChain_of_grown (fun i x hx => VM.insert_blocks_of_some s₂ hfree hx) hc
      hxstored
    exact hinv.nonce _ _ _ hx hs c hc' atomicTx ht utx hutx input hinput hsigner

omit [LinearOrder Address] [CheckedArith] [FlowChecker ID] in
/-- The chain of a block inserted on a stored parent is conflict-free: the parent's chain is, the
block's own transactions spend distinct inputs, and none of them spends an input of the
parent's chain. -/
theorem insert_conflictFree (hinv : Inv env vm) {b parent : Block ID Address Owner Cred}
    (hfree : vm.blocks b.id = none) (hparent : vm.blocks b.parent = some parent)
    (state : EVMState ID Address)
    (hverified : env.isBonus b = false →
      b.atomicTxs.Pairwise fun t t' => (t.InputUTXOs env.ctx).Disjoint (t'.InputUTXOs env.ctx))
    (hfresh : env.isBonus b = false → ∀ c, InChain Block.parent Block.height vm.blocks c parent →
      env.isBonus c = false → ∀ atomicTx ∈ b.atomicTxs, ∀ atomicTx' ∈ c.atomicTxs,
        (atomicTx.InputUTXOs env.ctx).Disjoint (atomicTx'.InputUTXOs env.ctx)) :
    ∀ i x, (vm.insert b state).blocks i = some x → ConflictFree env (vm.insert b state).blocks x := by
  have hgrow := fun i x (hx : vm.blocks i = some x) => VM.insert_blocks_of_some state hfree hx
  intro i x hx
  by_cases hi : i = b.id
  · subst hi
    simp only [VM.insert_blocks, Function.update_self, Option.some.injEq] at hx
    subst hx
    have hpstored : vm.blocks parent.id = some parent := by rw [hinv.id _ _ hparent]; exact hparent
    have hparentFree := hinv.conflictFree _ _ hpstored
    constructor
    · intro c hc hbonus
      rcases hinv.inChain_insert hfree hparent state hc with hcb | hc
      · rw [hcb] at hbonus ⊢
        exact hverified hbonus
      · exact hparentFree.within c hc hbonus
    · -- each of the two blocks is the new one or one of the parent's chain
      intro c c' hc hc' hne hbonus hbonus'
      rcases hinv.inChain_insert hfree hparent state hc with hcb | hc <;>
        rcases hinv.inChain_insert hfree hparent state hc' with hcb' | hc'
      · exact absurd (hcb.trans hcb'.symm) hne
      · rw [hcb] at hbonus ⊢
        exact hfresh hbonus c' hc' hbonus'
      · rw [hcb'] at hbonus' ⊢
        exact fun t ht t' ht' => (hfresh hbonus' c hc hbonus t' ht' t ht).symm
      · exact hparentFree.across c c' hc hc' hne hbonus hbonus'
  · rw [VM.insert_blocks, Function.update_of_ne hi] at hx
    have hxstored : vm.blocks x.id = some x := by rw [hinv.id _ _ hx]; exact hx
    exact (hinv.conflictFree _ _ hx).of_chain env
      fun c hc => hinv.inChain_of_grown hgrow hc hxstored

/-- Inserting a verified block keeps the invariant. -/
theorem insert (hinv : Inv env vm) (hboot : env.bootstrapped = true)
    (hpack : ∀ n a n' a', env.ctx.packNonceAddress n a = env.ctx.packNonceAddress n' a' →
      n = n' ∧ a = a')
    (hdisjoint : ∀ txID i n a, env.ctx.inputID txID i ≠ env.ctx.packNonceAddress n a)
    {b : Block ID Address Owner Cred} (hunknown : vm.status b.id = .Unknown)
    (h : vm.InsertBlockManual env b = .ok vm') : Inv env vm' := by
  obtain ⟨parent, sParent, s₁, s₂, hparent, hsParent, hheight, hexecute, hextra, rfl⟩ :=
    VM.InsertBlockManual_eq_ok h
  obtain ⟨hverify, htransfer⟩ := VM.onExtraStateChange_eq_ok hextra
  have hfree : vm.blocks b.id = none := (hinv.known b.id).mpr hunknown
  have hpstored : vm.blocks parent.id = some parent := by rw [hinv.id _ _ hparent]; exact hparent
  have hsParent' : vm.states parent.id = some sParent := by
    rw [hinv.id _ _ hparent]; exact hsParent
  have hgrow := fun i x (hx : vm.blocks i = some x) => VM.insert_blocks_of_some s₂ hfree hx
  -- what `verifyTxs` checked of a non-bonus block, on the parent
  have hverified : env.isBonus b = false →
      (∀ atomicTx ∈ b.atomicTxs, vm.SemanticVerify env parent atomicTx b.baseFee b.rules = .ok ()) ∧
        b.atomicTxs.Pairwise fun t t' => (t.InputUTXOs env.ctx).Disjoint (t'.InputUTXOs env.ctx) := by
    intro hbonus
    obtain ⟨ancestor, hancestor, -, -, -, hsv, hpair⟩ := VM.verifyTxs_eq_ok (hverify hbonus)
    rw [hparent] at hancestor
    cases hancestor
    exact ⟨hsv, hpair⟩
  -- the exports of the block name at least the parent's nonces of the addresses that sign
  have hnonces : ∀ atomicTx ∈ b.atomicTxs, ∀ utx, atomicTx.tx.unsignedAtomicTx = .exportTx utx →
      ∀ input ∈ utx.ins, Signer env input.address → sParent.nonce input.address ≤ input.nonce := by
    intro atomicTx ht utx hutx input hinput hsigner
    have hle₁ := env.execute_nonce _ _ _ _ hexecute hsigner
    have hle₂ := ((VM.nonce_foldlM_EVMStateTransfer b.atomicTxs s₁ htransfer).2 atomicTx ht utx
      hutx input hinput).1
    omega
  refine ⟨hinv.toShape.insert hunknown hparent hheight s₂, fun i x hx hbonus => ?_,
    fun i x hx hacc => ?_, hinv.insert_nonce hfree hparent hsParent hexecute htransfer,
    hinv.insert_conflictFree hfree hparent s₂ (fun hbonus => (hverified hbonus).2)
      fun hbonus _ hc hbonus' => hinv.fresh hboot hpack hdisjoint hpstored hsParent'
        (hverified hbonus).1 hnonces hc hbonus'⟩
  · by_cases hi : i = b.id
    · -- the block's imports fetched their UTXOs from the chain that holds them
      subst hi
      simp only [VM.insert_blocks, Function.update_self, Option.some.injEq] at hx
      subst hx
      intro atomicTx ht utx hutx k hk
      obtain ⟨hvalues, -⟩ := VM.importUTXOChecks_eq_ok
        (VM.SemanticVerify_importTx hboot hutx ((hverified hbonus).1 atomicTx ht))
      obtain ⟨v, hv⟩ := Option.ne_none_iff_exists'.mp (hvalues k hk)
      exact vm.sharedMemory.values_source _ _ _ hv
    · rw [VM.insert_blocks, Function.update_of_ne hi] at hx
      exact hinv.source _ _ hx hbonus
  · by_cases hi : i = b.id
    · subst hi
      simp at hacc
    · rw [VM.insert_blocks, Function.update_of_ne hi] at hx
      rw [VM.insert_status, Function.update_of_ne hi] at hacc
      exact hinv.removed _ _ hx hacc

omit [LinearOrder Address] [CheckedArith] [FlowChecker ID] in
/-- Accepting a block keeps the invariant: but for a bonus block, shared memory has now removed
the UTXOs of the block's imports. -/
theorem accept (hinv : Inv env vm) {blkID : ID} (h : vm.Accept env blkID = some vm') :
    Inv env vm' := by
  obtain ⟨b, hb, hprocessing, hparent, rfl⟩ := VM.Accept_eq_some h
  refine ⟨hinv.toShape.accept hb hprocessing hparent _, hinv.source,
    fun i x hx hacc hbonus atomicTx ht utx hutx k hk => ?_, hinv.nonce, hinv.conflictFree⟩
  dsimp only at hx hacc ⊢
  by_cases hi : i = blkID
  · subst hi
    rw [hb] at hx
    cases hx
    rw [if_neg (by simp [hbonus])]
    obtain ⟨hchain, hkey⟩ :=
      mem_removeRequests_mergeAtomicOps env.hex env.ctx (List.mem_map_of_mem ht) hutx hk
    exact (SharedMemory.removed_Apply _ _ _ _).mpr (.inr ⟨hchain, hkey⟩)
  · rw [Function.update_of_ne hi] at hacc
    have hold := hinv.removed _ _ hx hacc hbonus atomicTx ht utx hutx k hk
    split_ifs
    · exact hold
    · exact (SharedMemory.removed_Apply _ _ _ _).mpr (.inl hold)

omit [LinearOrder Address] [CheckedArith] [FlowChecker ID] in
/-- Rejecting a block keeps the invariant. -/
theorem reject (hinv : Inv env vm) {blkID : ID} (h : vm.Reject blkID = some vm') :
    Inv env vm' := by
  obtain ⟨hprocessing, rfl⟩ := VM.Reject_eq_some h
  refine ⟨hinv.toShape.reject hprocessing, hinv.source, fun i x hx hacc => ?_, hinv.nonce,
    hinv.conflictFree⟩
  dsimp only at hacc
  have hi : i ≠ blkID := fun heq => by
    subst heq
    simp at hacc
  rw [Function.update_of_ne hi] at hacc
  exact hinv.removed _ _ hx hacc

omit [LinearOrder Address] [CheckedArith] [FlowChecker ID] in
/-- A peer chain's put keeps the invariant: it removes nothing from the removed keys. -/
theorem put (hinv : Inv env vm) (key : ID) (value : V) :
    Inv env { vm with sharedMemory := vm.sharedMemory.Put key value } :=
  ⟨⟨hinv.id, hinv.known, hinv.parent, hinv.genesis, hinv.accepted, hinv.lastAccepted⟩, hinv.source,
    fun i x hx hacc hbonus atomicTx ht utx hutx k hk => by
      simpa using hinv.removed i x hx hacc hbonus atomicTx ht utx hutx k hk,
    hinv.nonce, hinv.conflictFree⟩

/-- Every event keeps the invariant of a bootstrapped VM, whose export inputs pack nonce and
address injectively into IDs that no import's UTXO has. -/
theorem step (hinv : Inv env vm) (hboot : env.bootstrapped = true)
    (hpack : ∀ n a n' a', env.ctx.packNonceAddress n a = env.ctx.packNonceAddress n' a' →
      n = n' ∧ a = a')
    (hdisjoint : ∀ txID i n a, env.ctx.inputID txID i ≠ env.ctx.packNonceAddress n a)
    (e : Event ID Address Owner Cred V) : Inv env (vm.step env e) := by
  cases e with
  | verify b =>
    simp only [VM.step]
    split
    · next vm' hverify =>
      rcases VM.Verify_eq_ok hverify with rfl | ⟨hunknown, hinsert⟩
      · exact hinv
      · exact hinv.insert hboot hpack hdisjoint hunknown hinsert
    · exact hinv
  | accept blkID =>
    simp only [VM.step]
    cases haccept : vm.Accept env blkID with
    | none => exact hinv
    | some vm' => exact hinv.accept haccept
  | reject blkID =>
    simp only [VM.step]
    cases hreject : vm.Reject blkID with
    | none => exact hinv
    | some vm' => exact hinv.reject hreject
  | put key value => exact hinv.put key value

/-- The invariant holds after every run. -/
theorem run (hinv : Inv env vm) (hboot : env.bootstrapped = true)
    (hpack : ∀ n a n' a', env.ctx.packNonceAddress n a = env.ctx.packNonceAddress n' a' →
      n = n' ∧ a = a')
    (hdisjoint : ∀ txID i n a, env.ctx.inputID txID i ≠ env.ctx.packNonceAddress n a)
    (events : List (Event ID Address Owner Cred V)) : Inv env (vm.run env events) := by
  induction events generalizing vm with
  | nil => exact hinv
  | cons e events ih => exact ih (hinv.step hboot hpack hdisjoint e)

omit [LinearOrder Address] [CheckedArith] [FlowChecker ID] in
variable (env) in
/-- The invariant holds of the VM after initialization, which stores the genesis block only. -/
theorem init (genesisID : ID) (rules : Rules) (state : EVMState ID Address)
    (sharedMemory : SharedMemory ID V sourceOf) :
    Inv env (VM.init env genesisID rules state sharedMemory) := by
  have hstored : ∀ i x, (VM.init env genesisID rules state sharedMemory).blocks i = some x →
      i = genesisID ∧ x = VM.genesis env genesisID rules := by
    intro i x hx
    simp only [VM.init] at hx
    split_ifs at hx with hi
    exact ⟨hi, (Option.some.inj hx).symm⟩
  -- the genesis block's chain is the genesis block
  have hchain : ∀ c, InChain Block.parent Block.height
      (VM.init env genesisID rules state sharedMemory).blocks c (VM.genesis env genesisID rules) →
      c = VM.genesis env genesisID rules := by
    intro c hc
    rcases inChain_iff.mp hc with h | ⟨p, hne, -, -⟩
    · exact h
    · exact absurd rfl hne
  refine ⟨⟨fun i x hx => ?_, fun i => ?_, fun i x hx hne => ?_, fun i x hx _ => ?_,
    fun i x hx _ hne => ?_, by simp [VM.init]⟩, fun i x hx _ atomicTx ht => ?_,
    fun i x hx _ _ atomicTx ht => ?_, fun i x s hx _ c hc atomicTx ht => ?_, fun i x hx => ?_⟩
  · obtain ⟨rfl, rfl⟩ := hstored i x hx
    rfl
  · by_cases hi : i = genesisID <;> simp [VM.init, hi]
  · obtain ⟨-, rfl⟩ := hstored i x hx
    exact absurd rfl hne
  · obtain ⟨rfl, -⟩ := hstored i x hx
    simp [VM.init]
  · obtain ⟨-, rfl⟩ := hstored i x hx
    exact absurd rfl hne
  · obtain ⟨-, rfl⟩ := hstored i x hx
    simp [VM.genesis] at ht
  · obtain ⟨-, rfl⟩ := hstored i x hx
    simp [VM.genesis] at ht
  · obtain ⟨-, rfl⟩ := hstored i x hx
    rw [hchain c hc] at ht
    simp [VM.genesis] at ht
  · obtain ⟨-, rfl⟩ := hstored i x hx
    constructor
    · intro c hc _
      rw [hchain c hc]
      simp [VM.genesis]
    · intro c c' hc hc' hne
      exact absurd ((hchain c hc).trans (hchain c' hc').symm) hne

end Inv

/-! ## No input spent twice -/

/-- In every run of a bootstrapped VM from its initial state, the chain of every block it holds
is conflict-free: no two atomic transactions of distinct non-bonus blocks of the chain, and no
two of one such block, spend an input in common. The held blocks are the accepted ones, up to
the last accepted block, and the verified processing and rejected ones. The VM's context packs
an export input's nonce and address injectively, into IDs no import's UTXO has. -/
theorem no_input_spent_twice (hboot : env.bootstrapped = true)
    (hpack : ∀ n a n' a', env.ctx.packNonceAddress n a = env.ctx.packNonceAddress n' a' →
      n = n' ∧ a = a')
    (hdisjoint : ∀ txID i n a, env.ctx.inputID txID i ≠ env.ctx.packNonceAddress n a)
    (genesisID : ID) (rules : Rules) (state : EVMState ID Address)
    (sharedMemory : SharedMemory ID V sourceOf) (events : List (Event ID Address Owner Cred V))
    {i : ID} {b : Block ID Address Owner Cred}
    (hb : ((VM.init env genesisID rules state sharedMemory).run env events).blocks i = some b) :
    ConflictFree env ((VM.init env genesisID rules state sharedMemory).run env events).blocks b :=
  ((Inv.init env genesisID rules state sharedMemory).run hboot hpack hdisjoint events).conflictFree
    i b hb

end Invariant

/-! ## A sample run -/

section Reference

attribute [local instance] CheckedArith.reference FlowChecker.reference

/-- The sample context, with UTXO IDs even and packed export inputs odd. -/
def sampleChainContext : AtomicContext ℕ (Fin 2) Unit :=
  { sampleContext with
    inputID := fun txID i => 2 * (txID * 10 + i)
    packNonceAddress := fun nonce a => 2 * (2 * nonce + a.val) + 1 }

/-- A bootstrapped VM whose outside checks all pass: each credential signs for itself, and the
Ethereum transactions change nothing. -/
def sampleChainEnv : ChainEnv ℕ (Fin 2) Unit (Fin 2) Unit where
  ctx := sampleChainContext
  bootstrapped := true
  hex _ := ""
  isBonus _ := false
  syntacticVerify _ := .ok ()
  verifyPredicates _ := .ok ()
  verifyTransfers _ _ _ := .ok ()
  credAddress cred := .ok cred
  execute _ s := .ok s
  execute_nonce _ _ _ _ h _ := by
    cases h
    exact le_rfl

/-- Shared memory holding one UTXO of chain `5`: output `0` of transaction `3`. -/
def sampleSharedMemory : SharedMemory ℕ Unit fun _ => 5 where
  values c k := if c = 5 ∧ k = 60 then some () else none
  removed _ _ := false
  values_source c k v h := by
    split_ifs at h with hk
    exact hk.1
  values_removed _ _ h := by cases h

/-- Every fork active. -/
def sampleRules : Rules := ⟨true, true, true, true, true, true⟩

/-- Block `1` on the genesis block `0`: the sample import of that UTXO. -/
def sampleImportBlock : Block ℕ (Fin 2) Unit (Fin 2) :=
  ⟨1, 0, 1, some 25, sampleRules, [⟨⟨11, .importTx sampleImportTx⟩, [0]⟩]⟩

/-- Block `2` on block `1`, importing the same UTXO again. -/
def sampleDoubleSpendBlock : Block ℕ (Fin 2) Unit (Fin 2) :=
  ⟨2, 1, 2, some 25, sampleRules, [⟨⟨12, .importTx sampleImportTx⟩, [0]⟩]⟩

/-- Block `1` is verified and accepted; block `2`, verified next, finds the UTXO gone. -/
def sampleChainRun : VM ℕ (Fin 2) Unit (Fin 2) Unit fun _ => 5 :=
  (VM.init sampleChainEnv 0 sampleRules ⟨fun _ => 0, fun _ _ => 0, fun _ => 0⟩
    sampleSharedMemory).run sampleChainEnv
    [.verify sampleImportBlock, .accept 1, .verify sampleDoubleSpendBlock]

/-- The sample context packs nonces and addresses to odd numbers, one for each pair, and input
IDs to even ones. -/
theorem sampleChainEnv_packNonceAddress : ∀ n a n' a',
    sampleChainEnv.ctx.packNonceAddress n a = sampleChainEnv.ctx.packNonceAddress n' a' →
      n = n' ∧ a = a' := fun n a n' a' h => by
  have h' : 2 * (2 * n + a.val) + 1 = 2 * (2 * n' + a'.val) + 1 := h
  have ha := a.isLt
  have ha' := a'.isLt
  exact ⟨by omega, Fin.ext (by omega)⟩

theorem sampleChainEnv_inputID_ne : ∀ txID i n a,
    sampleChainEnv.ctx.inputID txID i ≠ sampleChainEnv.ctx.packNonceAddress n a :=
  fun txID i n a h => by
    have h' : 2 * (txID * 10 + i) = 2 * (2 * n + a.val) + 1 := h
    omega

theorem no_input_spent_twice_sample :
    sampleChainEnv.bootstrapped = true ∧
      (∀ n a n' a', sampleChainEnv.ctx.packNonceAddress n a =
        sampleChainEnv.ctx.packNonceAddress n' a' → n = n' ∧ a = a') ∧
      (∀ txID i n a, sampleChainEnv.ctx.inputID txID i ≠ sampleChainEnv.ctx.packNonceAddress n a) ∧
      sampleChainRun.blocks 1 = some sampleImportBlock ∧ sampleChainRun.blocks 2 = none ∧
      ConflictFree sampleChainEnv sampleChainRun.blocks sampleImportBlock :=
  have hblock : sampleChainRun.blocks 1 = some sampleImportBlock := rfl
  ⟨rfl, sampleChainEnv_packNonceAddress, sampleChainEnv_inputID_ne, hblock, rfl,
    no_input_spent_twice sampleChainEnv rfl sampleChainEnv_packNonceAddress
      sampleChainEnv_inputID_ne 0 sampleRules
      ⟨fun _ => 0, fun _ _ => 0, fun _ => 0⟩ sampleSharedMemory
      [.verify sampleImportBlock, .accept 1, .verify sampleDoubleSpendBlock] hblock⟩

end Reference

/-! ## What every run keeps besides -/

section Reachable

variable [CheckedArith] [FlowChecker ID]

/-- The VMs that runs reach: the initial VM over some genesis block, rules, state and shared
memory, after some events. -/
def Reachable (vm : VM ID Address Owner Cred V sourceOf) : Prop :=
  ∃ genesisID rules state sharedMemory events,
    vm = (VM.init env genesisID rules state sharedMemory).run env events

variable {env} {vm : VM ID Address Owner Cred V sourceOf}

/-- The store of a VM that a run reaches has its shape, whatever the environment. -/
theorem Reachable.shape (hreach : Reachable env vm) : Shape vm := by
  obtain ⟨genesisID, rules, state, sharedMemory, events, rfl⟩ := hreach
  exact (Inv.init env genesisID rules state sharedMemory).toShape.run env events

/-- In every VM a run reaches, the accepted blocks form a chain down to the genesis block: the
last accepted block is accepted, and an accepted block above height `0` has its parent stored
one height lower, and accepted. -/
theorem accepted_blocks_form_chain (hreach : Reachable env vm) :
    vm.status vm.lastAccepted = .Accepted ∧
      ∀ i b, vm.blocks i = some b → vm.status i = .Accepted → b.height ≠ 0 →
        vm.status b.parent = .Accepted ∧
          ∃ p, vm.blocks b.parent = some p ∧ p.height + 1 = b.height := by
  have hshape := hreach.shape
  exact ⟨hshape.lastAccepted, fun i b hb hacc hne =>
    ⟨hshape.accepted i b hb hacc hne, hshape.parent i b hb hne⟩⟩

end Reachable

section Reference

attribute [local instance] CheckedArith.reference FlowChecker.reference

theorem reachable_sampleChainRun : Reachable sampleChainEnv sampleChainRun :=
  ⟨0, sampleRules, _, sampleSharedMemory, _, rfl⟩

theorem accepted_blocks_form_chain_sample :
    Reachable sampleChainEnv sampleChainRun ∧
      sampleChainRun.status sampleChainRun.lastAccepted = .Accepted ∧
      ∀ i b, sampleChainRun.blocks i = some b → sampleChainRun.status i = .Accepted →
        b.height ≠ 0 → sampleChainRun.status b.parent = .Accepted ∧
          ∃ p, sampleChainRun.blocks b.parent = some p ∧ p.height + 1 = b.height :=
  ⟨reachable_sampleChainRun, accepted_blocks_form_chain reachable_sampleChainRun⟩

end Reference

section ReachableInv

variable [CheckedArith] [FlowChecker ID] {env} {vm : VM ID Address Owner Cred V sourceOf}
  (hboot : env.bootstrapped = true)
  (hpack : ∀ n a n' a', env.ctx.packNonceAddress n a = env.ctx.packNonceAddress n' a' →
    n = n' ∧ a = a')
  (hdisjoint : ∀ txID i n a, env.ctx.inputID txID i ≠ env.ctx.packNonceAddress n a)
include hboot hpack hdisjoint

theorem Reachable.inv (hreach : Reachable env vm) : Inv env vm := by
  obtain ⟨genesisID, rules, state, sharedMemory, events, rfl⟩ := hreach
  exact (Inv.init env genesisID rules state sharedMemory).run hboot hpack hdisjoint events

/-- In every VM a bootstrapped run reaches, shared memory has removed every UTXO that an import
of an accepted block, not a bonus block, spent. -/
theorem accepted_imports_removed (hreach : Reachable env vm) {i : ID}
    {b : Block ID Address Owner Cred} (hb : vm.blocks i = some b)
    (hacc : vm.status i = .Accepted) (hbonus : env.isBonus b = false) :
    ∀ atomicTx ∈ b.atomicTxs, ∀ utx, atomicTx.tx.unsignedAtomicTx = .importTx utx →
      ∀ k ∈ utx.InputUTXOs env.ctx, vm.sharedMemory.removed utx.sourceChain k = true :=
  (hreach.inv hboot hpack hdisjoint).removed i b hb hacc hbonus

/-- In every VM a bootstrapped run reaches, each export along the chain of a stored block names,
for an address that signs, a nonce below that address's nonce in the block's state: an export
cannot be replayed on top of the chain it is part of. -/
theorem export_nonce_below_state (hreach : Reachable env vm) {i : ID}
    {b : Block ID Address Owner Cred} {s : EVMState ID Address} (hb : vm.blocks i = some b)
    (hs : vm.states i = some s) :
    ∀ c, InChain Block.parent Block.height vm.blocks c b → ∀ atomicTx ∈ c.atomicTxs,
      ∀ utx, atomicTx.tx.unsignedAtomicTx = .exportTx utx → ∀ input ∈ utx.ins,
        Signer env input.address → input.nonce < s.nonce input.address :=
  (hreach.inv hboot hpack hdisjoint).nonce i b s hb hs

end ReachableInv

section Reference

attribute [local instance] CheckedArith.reference FlowChecker.reference

theorem accepted_imports_removed_sample :
    sampleChainRun.blocks 1 = some sampleImportBlock ∧ sampleChainRun.status 1 = .Accepted ∧
      sampleChainEnv.isBonus sampleImportBlock = false ∧
      ∀ atomicTx ∈ sampleImportBlock.atomicTxs, ∀ utx,
        atomicTx.tx.unsignedAtomicTx = .importTx utx → ∀ k ∈ utx.InputUTXOs sampleChainEnv.ctx,
          sampleChainRun.sharedMemory.removed utx.sourceChain k = true :=
  have hb : sampleChainRun.blocks 1 = some sampleImportBlock := rfl
  have hacc : sampleChainRun.status 1 = .Accepted := rfl
  ⟨hb, hacc, rfl, accepted_imports_removed rfl sampleChainEnv_packNonceAddress
    sampleChainEnv_inputID_ne reachable_sampleChainRun hb hacc rfl⟩

/-- The state the sample run holds for block `1`. -/
def sampleBlockState : EVMState ℕ (Fin 2) :=
  (sampleChainRun.states 1).getD ⟨fun _ => 0, fun _ _ => 0, fun _ => 0⟩

theorem export_nonce_below_state_sample :
    sampleChainRun.blocks 1 = some sampleImportBlock ∧
      sampleChainRun.states 1 = some sampleBlockState ∧
      ∀ c, InChain Block.parent Block.height sampleChainRun.blocks c sampleImportBlock →
        ∀ atomicTx ∈ c.atomicTxs, ∀ utx, atomicTx.tx.unsignedAtomicTx = .exportTx utx →
          ∀ input ∈ utx.ins, Signer sampleChainEnv input.address →
            input.nonce < sampleBlockState.nonce input.address :=
  have hb : sampleChainRun.blocks 1 = some sampleImportBlock := rfl
  have hs : sampleChainRun.states 1 = some sampleBlockState := rfl
  ⟨hb, hs, export_nonce_below_state rfl sampleChainEnv_packNonceAddress
    sampleChainEnv_inputID_ne reachable_sampleChainRun hb hs⟩

end Reference

end Jeth.AtomicChain
