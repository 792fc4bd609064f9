import ReserveAuditor.LedgerRun
import ReserveAuditor.Lib.Account

/-! The balance of a token that is carried from block to block, and the totals over the tables
of mints and burns. -/
namespace ReserveAuditor
open Txn Relational

/-! ### The balance map as accounts -/

namespace BalanceMap

/-- The balances as numbers. -/
def amounts (m : BalanceMap) : TokenId → ℕ := fun t => (m.balance t).toNat

theorem balance_insert (m : BalanceMap) (t : TokenId) (v : UInt64) :
    balance (m.insert t v) = Function.update m.balance t v := by
  funext t'
  by_cases h : t' = t
  · subst h
    simp [balance, AList.lookup_insert]
  · simp [balance, AList.lookup_insert_ne h, h]

theorem amounts_insert (m : BalanceMap) (t : TokenId) (v : UInt64) :
    amounts (m.insert t v) = Function.update m.amounts t v.toNat := by
  funext t'
  simp only [amounts, balance_insert]
  by_cases h : t' = t
  · subst h
    simp
  · simp [h, amounts]

end BalanceMap

def mintEntry (tx : CoreMintTx) : Account.Entry TokenId :=
  .deposit tx.txPrefix.tokenId tx.txPrefix.amount.toNat

def burnEntry (burn : BurnTxOut) : Account.Entry TokenId :=
  .charge burn.getTokenId burn.getAmount.toNat

theorem charged_mints (txs : List CoreMintTx) (t : TokenId) :
    Account.charged t (txs.map mintEntry) = 0 := by
  simp [Account.charged, Function.comp_def, mintEntry, Account.Entry.chargeOn]

theorem deposited_burns (burns : List BurnTxOut) (t : TokenId) :
    Account.deposited t (burns.map burnEntry) = 0 := by
  simp [Account.deposited, Function.comp_def, burnEntry, Account.Entry.depositOn]

/-- Below the limit of `u64` the mint loop deposits. -/
theorem mintBalances_amounts (txs : List CoreMintTx) {m : BalanceMap}
    (hb : Account.Below (2^64) m.amounts (txs.map mintEntry)) :
    (mintBalances m txs).amounts = Account.post m.amounts (txs.map mintEntry) := by
  induction txs generalizing m with
  | nil => rfl
  | cons tx txs ih =>
    obtain ⟨hone,hrest⟩ := hb.cons
    -- below 2^64 the addition of the loop does not wrap
    have hlt : (m.balance tx.txPrefix.tokenId).toNat+tx.txPrefix.amount.toNat < 2^64 := by
      simpa [mintEntry, Account.Entry.apply, BalanceMap.amounts] using hone tx.txPrefix.tokenId
    have hstep : BalanceMap.amounts (m.insert tx.txPrefix.tokenId
        (m.balance tx.txPrefix.tokenId+tx.txPrefix.amount)) = (mintEntry tx).apply m.amounts := by
      rw [BalanceMap.amounts_insert, UInt64.toNat_add, Nat.mod_eq_of_lt hlt]
      rfl
    rw [← hstep] at hrest
    rw [List.map_cons, Account.post_cons, ← hstep]
    exact ih hrest

theorem chargeBurn_amounts (m : BalanceMap) (burn : BurnTxOut) :
    (chargeBurn m burn).amounts = (burnEntry burn).apply m.amounts := by
  have hval : (if burn.getAmount > m.balance burn.getTokenId then 0
      else m.balance burn.getTokenId-burn.getAmount).toNat =
      m.amounts burn.getTokenId-burn.getAmount.toNat := by
    split
    -- a burn of more than there is leaves zero, as the subtraction of numbers does
    · rename_i hgt
      have hlt := UInt64.lt_iff_toNat_lt.mp hgt
      simp only [UInt64.toNat_zero, BalanceMap.amounts]
      omega
    · rename_i hle
      exact UInt64.toNat_sub_of_le _ _ (UInt64.not_lt.mp hle)
  rw [chargeBurn, BalanceMap.amounts_insert, hval]
  rfl

/-- The burn loop charges, and counts the overdrafts. -/
theorem chargeBurns_amounts (burns : List BurnTxOut) (m : BalanceMap) :
    (burns.foldl chargeBurn m).amounts = Account.post m.amounts (burns.map burnEntry) ∧
      overBurns m burns = Account.overdrafts m.amounts (burns.map burnEntry) := by
  induction burns generalizing m with
  | nil => exact ⟨rfl,rfl⟩
  | cons burn burns ih =>
    obtain ⟨hb,hc⟩ := ih (chargeBurn m burn)
    rw [chargeBurn_amounts] at hb hc
    refine ⟨hb,?_⟩
    rw [overBurns, hc]
    rfl

/-! ### The balances of a block, read back -/

theorem lookup_foldl_insert (l : List (Sigma fun _ : TokenId => UInt64)) (hl : l.NodupKeys)
    (m : BalanceMap) (t : TokenId) :
    (l.foldl (fun m e => m.insert e.1 e.2) m).lookup t = (l.dlookup t).or (m.lookup t) := by
  induction l generalizing m with
  | nil => rfl
  | cons e l ih =>
    obtain ⟨hnot,hl⟩ := List.nodupKeys_cons.mp hl
    rw [List.foldl_cons, ih hl]
    obtain ⟨k,v⟩ := e
    by_cases h : t = k
    · subst h
      -- no later entry is of this token again
      have hnone : l.dlookup t = none := List.dlookup_eq_none.mpr hnot
      simp [hnone, AList.lookup_insert]
    · rw [AList.lookup_insert_ne h, List.dlookup_cons_ne l ⟨k,v⟩ h]

theorem toInt64_inj (a b : UInt64) : a.toInt64 = b.toInt64 ↔ a = b :=
  ⟨fun h => congrArg Int64.toUInt64 h,fun h => congrArg UInt64.toInt64 h⟩

/-- The balances of a block that rows are added for, and of the others. -/
theorem BlockBalance.getBalancesForBlock_append {s s' : Db} {b : UInt64}
    (entries : List (Sigma fun _ : TokenId => UInt64))
    (hs : s'.blockBalance = s.blockBalance ++ entries.map fun e => .new b e.1 e.2) (b' : UInt64) :
    getBalancesForBlock s' b' = if b' = b then
      entries.foldl (fun m e => m.insert e.1 e.2) (getBalancesForBlock s b')
    else getBalancesForBlock s b' := by
  -- the new rows are of block `b` alone
  have hnew : (entries.map fun e => BlockBalance.new b e.1 e.2).filter
      (fun r => decide (r.blockIndex = b'.toInt64)) =
      if b' = b then entries.map fun e => BlockBalance.new b e.1 e.2 else [] := by
    split
    · rename_i h
      subst h
      refine List.filter_eq_self.mpr fun r hr => ?_
      obtain ⟨e,-,rfl⟩ := List.mem_map.mp hr
      simp [BlockBalance.new]
    · rename_i h
      refine List.filter_eq_nil_iff.mpr fun r hr => ?_
      obtain ⟨e,-,rfl⟩ := List.mem_map.mp hr
      have hne : b.toInt64 ≠ b'.toInt64 := fun he => h ((toInt64_inj _ _).mp he).symm
      simp [BlockBalance.new, hne]
  rw [getBalancesForBlock, hs, List.filter_append, List.foldl_append, hnew]
  split
  · rw [List.foldl_map]
    rfl
  · rfl

theorem lookup_getBalancesForBlock {idx : UInt64} {m : BalanceMap} {old : List BlockBalance}
    {s : Db} (hold : ∀ r ∈ old, r.blockIndex ≠ idx.toInt64)
    (hs : s.blockBalance = old ++ m.entries.map fun e => .new idx e.1 e.2) (t : TokenId) :
    (BlockBalance.getBalancesForBlock s idx).lookup t = m.lookup t := by
  let before : Db := { s with blockBalance := old }
  have hnil : BlockBalance.getBalancesForBlock before idx = ∅ := by
    have hfilter : old.filter (fun r => decide (r.blockIndex = idx.toInt64)) = [] := by
      simpa [List.filter_eq_nil_iff] using hold
    rw [BlockBalance.getBalancesForBlock, hfilter]
    rfl
  rw [BlockBalance.getBalancesForBlock_append (s := before) m.entries hs, if_pos rfl, hnil,
    lookup_foldl_insert _ m.nodupKeys, AList.lookup_empty, Option.or_none]
  rfl

/-- The balances that are stored for the last synced block. -/
def storedBalances (s : Db) : BalanceMap :=
  match Counters.get s .numBlocksSynced with
  | 0 => ∅
  | n+1 => BlockBalance.getBalancesForBlock s (.ofNat n)

/-! ### The books -/

variable {ext : Externals} {s s' : Db}

/-- What a block moves: mints are deposits, and the outputs that it burns are charges. -/
def BlockData.entries (ext : Externals) (b : BlockData) : List (Account.Entry TokenId) :=
  b.contents.mintTxs.map mintEntry ++
    (burnTxOutsOf ext b.block.index b.timestamp b.contents.outputs).map burnEntry

def history (ext : Externals) (blocks : List BlockData) : List (Account.Entry TokenId) :=
  blocks.flatMap (BlockData.entries ext)

/-- The database keeps the books on the blocks: the balances after them, the totals, and the
number of overdrafts. -/
structure KeepsBooks (ext : Externals) (blocks : List BlockData) (s : Db) : Prop where
  balances : (storedBalances s).amounts = Account.post (fun _ => 0) (history ext blocks)
  minted : ∀ t, getMintTotal t s = Account.deposited t (history ext blocks)
  burned : ∀ t, getBurnTotal t s = Account.charged t (history ext blocks)
  overBurns : Counters.get s .numBurnsExceedingBalance =
    Account.overdrafts (fun _ => 0) (history ext blocks)

theorem keepsBooks_initial : KeepsBooks ext [] initialDb where
  balances := rfl
  minted _ := rfl
  burned _ := rfl
  overBurns := rfl

theorem sum_filter_map {α : Type} (l : List α) (p : α → Bool) (f : α → ℕ) :
    ((l.filter p).map f).sum = (l.map fun a => if p a then f a else 0).sum := by
  induction l with
  | nil => rfl
  | cons a l ih => cases h : p a <;> simp [h, ih]

theorem getMintTotal_eq (t : TokenId) (s : Db) : getMintTotal t s =
    (s.mintTxs.rows.map fun r => if r.tokenId = t.toInt64 then r.getAmount.toNat else 0).sum := by
  simp only [getMintTotal, MintTx.getMintAmounts, List.map_map, Function.comp_def, sum_filter_map,
    decide_eq_true_eq]

theorem getBurnTotal_eq (t : TokenId) (s : Db) : getBurnTotal t s =
    (s.burnTxOuts.rows.map fun r => if r.tokenId = t.toInt64 then r.getAmount.toNat else 0).sum := by
  simp only [getBurnTotal, BurnTxOut.getBurnAmounts, List.map_map, Function.comp_def,
    sum_filter_map, decide_eq_true_eq]

variable {b : BlockData} {data : SyncBlockData}

theorem BlockSynced.minted (h : BlockSynced ext b s data s') (t : TokenId) :
    getMintTotal t s' = getMintTotal t s+Account.deposited t (b.entries ext) := by
  -- each mint was stored with the token and the amount that it has in the block
  have hnew : (data.mintTxs.map fun r => if r.tokenId = t.toInt64 then r.getAmount.toNat else 0) =
      b.contents.mintTxs.map (fun tx => (mintEntry tx).depositOn t) := by
    refine forall₂_map_eq h.mintsStored fun tx row hst => ?_
    obtain ⟨-,htoken,hamount,-⟩ := hst.fields
    simp only [htoken, toInt64_inj, mintEntry, Account.Entry.depositOn, MintTx.getAmount, hamount]
    rfl
  rw [getMintTotal_eq, getMintTotal_eq, h.mints, List.map_append, List.sum_append, hnew,
    BlockData.entries, Account.deposited_append, deposited_burns, Account.deposited, List.map_map]
  rfl

theorem BlockSynced.burned (h : BlockSynced ext b s data s') (t : TokenId) :
    getBurnTotal t s' = getBurnTotal t s+Account.charged t (b.entries ext) := by
  have hnew : (data.burnTxOuts.map fun r =>
      if r.tokenId = t.toInt64 then r.getAmount.toNat else 0) =
      (burnTxOutsOf ext b.block.index b.timestamp b.contents.outputs).map
        (fun burn => (burnEntry burn).chargeOn t) := by
    refine forall₂_map_eq h.burnsStored fun burn row ⟨n,hrow⟩ => ?_
    rw [hrow]
    have htoken : burn.tokenId = t.toInt64 ↔ burn.getTokenId = t :=
      ⟨fun h => congrArg Int64.toUInt64 h,fun h => congrArg UInt64.toInt64 h⟩
    change (if burn.tokenId = t.toInt64 then burn.getAmount.toNat else 0) = _
    simp only [htoken]
    rfl
  rw [getBurnTotal_eq, getBurnTotal_eq, h.burns, List.map_append, List.sum_append, hnew,
    BlockData.entries, Account.charged_append, charged_mints, Account.charged, List.map_map,
    Nat.zero_add]
  rfl

/-- The balances that a block starts from are those stored for the last one. -/
theorem previousBalances_eq {idx : UInt64} (h : idx.toNat = Counters.get s .numBlocksSynced) :
    previousBalances idx s = storedBalances s := by
  rw [previousBalances, storedBalances, ← h]
  cases hn : idx.toNat with
  -- the first block starts from the empty map
  | zero =>
    have hz : idx = 0 := UInt64.toNat_inj.mp hn
    simp [hz]
  | succ n =>
    have hne : idx ≠ 0 := by
      rintro rfl
      simp at hn
    have hlt := idx.toNat_lt
    -- the block before it, whose balances are the last ones stored
    have hpred : idx-1 = .ofNat n := by
      apply UInt64.toNat_inj.mp
      have hone : (1 : UInt64) ≤ idx := by
        rw [UInt64.le_iff_toNat_le, hn]
        simp
      have hn' : n < 2^64 := by omega
      rw [UInt64.toNat_sub_of_le _ _ hone, UInt64.toNat_ofNat_of_lt' hn', hn]
      simp
    rw [if_neg hne, hpred]

/-- The balances that a block ends with are stored for it. -/
theorem BlockSynced.lookup_stored {n : ℕ} (h : BlockSynced ext b s data s') (hg : Gapless n s)
    (t : TokenId) : (storedBalances s').lookup t = data.balanceMap.lookup t := by
  have hidx : b.block.index.toNat = n := h.index.trans hg.counted
  have hold : ∀ r ∈ s.blockBalance, r.blockIndex ≠ b.block.index.toInt64 :=
    fun r hr => ne_toInt64_of_lt (hidx ▸ hg.balances r hr)
  have hlast : storedBalances s' = BlockBalance.getBalancesForBlock s' b.block.index := by
    rw [storedBalances, h.counted, ← h.index]
    simp
  rw [hlast, lookup_getBalancesForBlock hold h.blockBalance]

/-- Where no balance reaches the limit of `u64`, a block keeps the books. -/
theorem BlockSynced.keepsBooks {before : List BlockData} (h : BlockSynced ext b s data s')
    (hg : Gapless before.length s) (hi : KeepsBooks ext before s)
    (hb : Account.Below (2^64) (fun _ => 0) (history ext (before ++ [b]))) :
    KeepsBooks ext (before ++ [b]) s' := by
  have hhist : history ext (before ++ [b]) = history ext before ++ b.entries ext := by
    simp [history]
  have hprev : (previousBalances b.block.index s).amounts =
      Account.post (fun _ => 0) (history ext before) := by
    rw [previousBalances_eq h.index, hi.balances]
  rw [hhist] at hb
  have hblock := hb.right
  rw [← hprev, BlockData.entries] at hblock
  -- the block mints first, and burns from what there is then
  have hmint := mintBalances_amounts _ hblock.left
  obtain ⟨hcharge,hover⟩ := chargeBurns_amounts
    (burnTxOutsOf ext b.block.index b.timestamp b.contents.outputs)
    (mintBalances (previousBalances b.block.index s) b.contents.mintTxs)
  have hpost : data.balanceMap.amounts =
      Account.post (fun _ => 0) (history ext before ++ b.entries ext) := by
    rw [h.balances, hcharge, hmint, hprev, BlockData.entries, Account.post_append,
      Account.post_append]
  obtain ⟨row,hrow,hrow'⟩ := h.counters
  refine ⟨?_,fun t => ?_,fun t => ?_,?_⟩
  · rw [hhist, ← hpost]
    funext t
    rw [BalanceMap.amounts, BalanceMap.amounts, BalanceMap.balance, BalanceMap.balance,
      h.lookup_stored hg]
  · rw [h.minted, hi.minted, hhist, Account.deposited_append]
  · rw [h.burned, hi.burned, hhist, Account.charged_append]
  -- only a burn of more than there is is counted, and counts one
  · have hcount : Counters.get s' .numBurnsExceedingBalance =
        Counters.get s .numBurnsExceedingBalance+overBurns
          (mintBalances (previousBalances b.block.index s) b.contents.mintTxs)
          (burnTxOutsOf ext b.block.index b.timestamp b.contents.outputs) := by
      simp [Counters.get, hrow, hrow', Counters.addBlock, Counters.add_ne]
    rw [hcount, hi.overBurns, hover, hmint, hprev, hhist, BlockData.entries,
      Account.overdrafts_append, Account.overdrafts_append,
      Account.overdrafts_deposits (charged_mints _), Nat.zero_add]

theorem syncBlocks_keepsBooks {blocks : List BlockData}
    (hb : Account.Below (2^64) (fun _ => 0) (history ext blocks))
    (h : (syncBlocks ext blocks).Returns initialDb () s) : KeepsBooks ext blocks s := by
  refine (syncBlocks_induction (I := fun blocks s =>
    Account.Below (2^64) (fun _ => 0) (history ext blocks) → KeepsBooks ext blocks s)
    (fun _ => keepsBooks_initial) ?_ h).2.2 hb
  intro before b s data s' _ _ _ hg hi _ hsynced hbelow
  refine hsynced.keepsBooks hg (hi ?_) hbelow
  rw [history, List.flatMap_append] at hbelow
  exact hbelow.left

/-- The balance stored for the last block is at least what was minted less what was burned, and
no over-burn was counted exactly when it is equal for every token. -/
theorem syncBlocks_balance_ge_and_eq_iff (ext : Externals) (blocks : List BlockData) (s : Db)
    (hb : Account.Below (2^64) (fun _ => 0) (history ext blocks))
    (h : (syncBlocks ext blocks).Returns initialDb () s) :
    (∀ t, (getMintTotal t s : ℤ)-getBurnTotal t s ≤ ((storedBalances s).balance t).toNat) ∧
    (Counters.get s .numBurnsExceedingBalance = 0 ↔
      ∀ t, (((storedBalances s).balance t).toNat : ℤ) = (getMintTotal t s : ℤ)-getBurnTotal t s) := by
  have hk := syncBlocks_keepsBooks hb h
  have hbal (t : TokenId) : ((storedBalances s).balance t).toNat =
      Account.post (fun _ => 0) (history ext blocks) t := congrFun hk.balances t
  constructor
  · intro t
    have hle := Account.le_post (fun _ => 0) (history ext blocks) t
    rw [hk.minted, hk.burned, hbal]
    omega
  -- the books balance for every token when nothing was overdrawn
  · rw [hk.overBurns, Account.overdrafts_eq_zero_iff]
    refine forall_congr' fun t => ?_
    rw [hk.minted, hk.burned, hbal]
    omega

/-- A mint of 3 and a burn of 5, then a mint of 2. -/
def overBurnBlocks : List BlockData :=
  [Reference.blockOf 0 [] [Reference.mintFor 0x11 3] [Reference.burnOf (List.replicate 32 9) 5],
    Reference.blockOf 1 [] [Reference.mintFor 0x12 2] []]

theorem overBurnBlocks_balance :
    let s := (syncBlocks Reference.externals overBurnBlocks initialDb).state
    (∀ t, (getMintTotal t s : ℤ)-getBurnTotal t s ≤ ((storedBalances s).balance t).toNat) ∧
    (Counters.get s .numBurnsExceedingBalance = 0 ↔
      ∀ t, (((storedBalances s).balance t).toNat : ℤ) = (getMintTotal t s : ℤ)-getBurnTotal t s) := by
  have hhist : history Reference.externals overBurnBlocks =
      [.deposit 1 3,.charge 1 5,.deposit 1 2] := by
    decide +kernel
  refine syncBlocks_balance_ge_and_eq_iff Reference.externals overBurnBlocks _ ?_
    (Program.returns_of_isOk (by decide +kernel))
  rw [hhist]
  refine Account.below_of_deposited fun k => ?_
  simp only [Account.deposited_cons, Account.deposited_nil, Account.Entry.depositOn]
  split <;> norm_num

end ReserveAuditor
