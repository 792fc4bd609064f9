import ReserveAuditor.History
import ReserveAuditor.Lib.Double
import ReserveAuditor.Reserve

/-! The page of the frontend (`frontend/src/api`). Its table is put together from six requests, and
each of them is answered from the database of its own moment. The rows are shown here as they are
sent; what the page computes from them, it computes with doubles. -/
namespace ReserveAuditor
open Txn Relational

/-! ### The table (`useTableData.ts`) -/

/-- The requests for the table. -/
inductive TableRequest where
  | auditedMints
  | auditedBurns
  | unauditedMints
  | unauditedBurns
  | unauditedWithdrawals
  | unauditedSafeDeposits

inductive TTableData where
  | auditedMint (r : AuditedMintResponse)
  | auditedBurn (r : AuditedBurnResponse)
  | unauditedMint (m : MintTx)
  | unauditedBurn (r : UnauditedBurnTxOutResponse)
  | unauditedWithdrawal (w : GnosisSafeWithdrawal)
  | unauditedSafeDeposit (r : UnauditedGnosisDepositResponse)

namespace TTableData

/-- What the table is sorted by, in milliseconds. The dates are sent without an offset, so that
`Date` takes them as local ones, in the time zone of the browser (`localDate`). A missing block
timestamp makes a `Date` of 0. -/
def date (localDate : DateTime → ℤ) : TTableData → ℤ
  | auditedMint r => localDate r.deposit.executionDate
  | auditedBurn r => (r.burn.blockTimestamp.map localDate).getD 0
  | unauditedMint m => (m.blockTimestamp.map localDate).getD 0
  | unauditedBurn r => (r.burn.blockTimestamp.map localDate).getD 0
  | unauditedWithdrawal w => localDate w.executionDate
  | unauditedSafeDeposit r => localDate r.deposit.executionDate

/-! What a row of the table shows. -/

def mint? : TTableData → Option MintTx
  | auditedMint r => some r.mint
  | unauditedMint m => some m
  | _ => none

def deposit? : TTableData → Option GnosisSafeDeposit
  | auditedMint r => some r.deposit
  | unauditedSafeDeposit r => some r.deposit
  | _ => none

def burn? : TTableData → Option BurnTxOut
  | auditedBurn r => some r.burn
  | unauditedBurn r => some r.burn
  | _ => none

def withdrawal? : TTableData → Option GnosisSafeWithdrawal
  | auditedBurn r => some r.withdrawal
  | unauditedWithdrawal w => some w
  | _ => none

end TTableData

/-- The newest row is first. -/
def sortData (localDate : DateTime → ℤ) (data : List TTableData) : List TTableData :=
  (data.mergeSort fun a b => decide (a.date localDate ≤ b.date localDate)).reverse

/-- The amounts are numbers as JSON has them, so that those from `2^63` on are negative. -/
structure UseTableDataResult where
  sortedData : List TTableData
  totalUnauditedDeposits : ℤ
  totalUnauditedBurns : ℤ

open ReserveAuditorHttpService in
/-- The table, from the databases that the requests are answered from. -/
def useTableData (burnRedemptionMemo : BurnTxOut → Except Error Bytes) (localDate : DateTime → ℤ)
    (db : TableRequest → Db) : Except Error UseTableDataResult := do
  let auditedMints ← getAuditedMints (some 0) (some 300) (db .auditedMints)
  let auditedBurns ← getAuditedBurns burnRedemptionMemo (some 0) (some 300) (db .auditedBurns)
  -- only mints and burns of eUSD
  let unauditedMints := (getUnauditedMints (db .unauditedMints)).filter
    fun m => decide (m.tokenId = 1)
  let unauditedBurns := (getUnauditedBurnTxOuts burnRedemptionMemo (db .unauditedBurns)).filter
    fun r => decide (r.burn.tokenId = 1)
  let unauditedWithdrawals := getUnauditedWithdrawals (db .unauditedWithdrawals)
  let unauditedDeposits := getUnauditedGnosisDeposits (db .unauditedSafeDeposits)
  pure {
    sortedData := sortData localDate (auditedMints.map .auditedMint ++
      auditedBurns.map .auditedBurn ++ unauditedMints.map .unauditedMint ++
      unauditedBurns.map .unauditedBurn ++ unauditedWithdrawals.map .unauditedWithdrawal ++
      unauditedDeposits.map .unauditedSafeDeposit)
    totalUnauditedDeposits :=
      Double.sum (unauditedDeposits.map fun r => Double.round r.deposit.amount.toInt)
    totalUnauditedBurns :=
      Double.sum (unauditedBurns.map fun r => Double.round r.burn.amount.toInt) }

/-! ### The balances (`useLedgerBalance.ts`) -/

/-- The token whose balance is shown, which is the first one of the first safe. -/
def shownToken (config : GnosisSafeConfig) : Option TokenId := do
  let safe ← config.safes.head?
  let token ← safe.tokens.head?
  pure token.tokenId

/-- The total supply, from the total that was minted and the total that was burned. These are sent
as decimal texts, which the subtraction turns into doubles. -/
def totalSupply (tokenId : TokenId) (mintDb burnDb : Db) : ℤ :=
  Double.round
    (Double.round (getMintTotal tokenId mintDb)-Double.round (getBurnTotal tokenId burnDb))

/-! ### What the table shows -/

variable {ext : Externals} {serde : Serde} {config : GnosisSafeConfig} {s s' : Db}

/-- What was listed after `s` and until `s'`. -/
def listedSince {α : Type} (listing : Db → List α) (s s' : Db) : List α :=
  (listing s').drop (listing s).length

/-- The shown rows and those that are left out are what is stored, each once, when the unaudited
rows are answered. But a pair is left out if it is matched between the answers, audited first, and
it is shown in addition if it is matched between them, audited last. -/
def ShowsAll {α β : Type} (listing : Db → List α) (side : α → β) (stored leftOut : Db → List β)
    (shown : List β) (audited unaudited : Db) : Prop :=
  (shown ++ ((listing audited).drop 300).map side ++ leftOut unaudited ++
      (listedSince listing audited unaudited).map side).Perm
    (stored unaudited ++ (listedSince listing unaudited audited).map side)

/-- The newest row is first, and of the unaudited rows only mints and burns of other tokens are left
out. -/
structure TableShows (localDate : DateTime → ℤ) (db : TableRequest → Db) (rows : List TTableData) :
    Prop where
  sorted : rows.Pairwise fun a b => b.date localDate ≤ a.date localDate
  mints : ShowsAll AuditedMint.withMintAndDeposit (fun p => p.2.1) (fun s => s.mintTxs.rows)
    (fun s => (MintTx.findUnauditedMintTxs s).filter fun m => !decide (m.tokenId = 1))
    (rows.filterMap TTableData.mint?) (db .auditedMints) (db .unauditedMints)
  deposits : ShowsAll AuditedMint.withMintAndDeposit (fun p => p.2.2)
    (fun s => s.gnosisSafeDeposits.rows) (fun _ => [])
    (rows.filterMap TTableData.deposit?) (db .auditedMints) (db .unauditedSafeDeposits)
  burns : ShowsAll AuditedBurn.withBurnAndWithdrawal (fun p => p.2.1) (fun s => s.burnTxOuts.rows)
    (fun s => (BurnTxOut.findUnauditedBurnTxOuts s).filter fun b => !decide (b.tokenId = 1))
    (rows.filterMap TTableData.burn?) (db .auditedBurns) (db .unauditedBurns)
  withdrawals : ShowsAll AuditedBurn.withBurnAndWithdrawal (fun p => p.2.2)
    (fun s => s.gnosisSafeWithdrawals.rows) (fun _ => [])
    (rows.filterMap TTableData.withdrawal?) (db .auditedBurns) (db .unauditedWithdrawals)

section Sorting
variable (localDate : DateTime → ℤ) (data : List TTableData)

theorem sortData_perm : (sortData localDate data).Perm data :=
  (List.reverse_perm _).trans (List.mergeSort_perm _ _)

theorem sortData_sorted : (sortData localDate data).Pairwise
    fun a b => b.date localDate ≤ a.date localDate := by
  have hsorted : (data.mergeSort fun a b => decide (a.date localDate ≤ b.date localDate)).Pairwise
      fun a b => decide (a.date localDate ≤ b.date localDate) = true := by
    refine List.pairwise_mergeSort (fun a b c hab hbc => ?_) (fun a b => ?_) data
    · exact decide_eq_true ((of_decide_eq_true hab).trans (of_decide_eq_true hbc))
    · simpa using le_total (a.date localDate) (b.date localDate)
  exact List.pairwise_reverse.mpr (hsorted.imp fun h => of_decide_eq_true h)

end Sorting

/-- The first page of a listing. -/
theorem page_first {α : Type} (rows : List α) :
    page (some 0) (some 300) rows = .ok (rows.take 300) :=
  page_eq_window rows (by decide) (by decide)

/-- What the split of a table makes of a page and of the unaudited rows that are kept. -/
theorem showsAll_of_splits {α β : Type} {listing : Db → List α} {side : α → β}
    {stored leftOut rest : Db → List β} {shown : List β} {audited unaudited : Db} (keep : β → Bool)
    (hsplits : Splits (stored unaudited) ((listing unaudited).map side) (rest unaudited))
    (hgrow : listing unaudited <+: listing audited ∨ listing audited <+: listing unaudited)
    (hleft : leftOut unaudited = (rest unaudited).filter fun b => !keep b)
    (hshown : shown.Perm (((listing audited).take 300).map side ++ (rest unaudited).filter keep)) :
    ShowsAll listing side stored leftOut shown audited unaudited := by
  have hpage : ((listing audited).take 300).map side ++ ((listing audited).drop 300).map side =
      (listing audited).map side := by
    rw [← List.map_append, List.take_append_drop]
  have hkept := List.filter_append_perm keep (rest unaudited)
  have hsince (s s' : Db) : (listedSince listing s s').map side =
      ((listing s').map side).drop ((listing s).map side).length := by
    rw [listedSince, List.map_drop, List.length_map]
  have hapart := hsplits.apart (hgrow.imp (fun h => h.map side) fun h => h.map side)
  rw [ShowsAll, hleft, hsince, hsince]
  rw [← Multiset.coe_eq_coe] at hshown hkept hapart ⊢
  simp only [← Multiset.coe_add] at hshown hkept hapart ⊢
  rw [← hapart, hshown, ← hkept, ← hpage, ← Multiset.coe_add, add_add_add_comm, ← add_assoc]

/-- Whichever of two moments of a run is first, the database only grows from it. -/
theorem grows_run (steps : List (Step config)) (i j : ℕ) (hij : i ≤ j) :
    Grows (Step.run ext serde (steps.take i)) (Step.run ext serde (steps.take j)) := by
  obtain ⟨k,rfl⟩ := Nat.exists_eq_add_of_le hij
  rw [List.take_add]
  generalize (steps.drop i).take k = more
  induction more using List.reverseRecOn with
  | nil =>
    rw [List.append_nil]
    exact refl_of Grows _
  | append_singleton more step ih =>
    rw [← List.append_assoc, run_append]
    refine trans_of Grows ih ?_
    cases step with
    | ledger b => exact grows_syncAndAudit ext (some config) b _
    | gnosis safe hsafe tx => exact grows_processRawTransaction safe serde tx _

/-- The rows before they are sorted: the first pages of the audited pairs and the unaudited rows. -/
def tableRows (burnRedemptionMemo : BurnTxOut → Except Error Bytes) (db : TableRequest → Db) :
    List TTableData :=
  ((AuditedMint.withMintAndDeposit (db .auditedMints)).take 300).map
      (fun p => .auditedMint ⟨p.1,p.2.1,p.2.2⟩) ++
    ((AuditedBurn.withBurnAndWithdrawal (db .auditedBurns)).take 300).map
      (fun p => .auditedBurn ⟨p.1,p.2.1,p.2.2,(burnRedemptionMemo p.2.1).toOption⟩) ++
    ((MintTx.findUnauditedMintTxs (db .unauditedMints)).filter
      fun m => decide (m.tokenId = 1)).map .unauditedMint ++
    ((BurnTxOut.findUnauditedBurnTxOuts (db .unauditedBurns)).filter
      fun b => decide (b.tokenId = 1)).map
      (fun b => .unauditedBurn ⟨b,(burnRedemptionMemo b).toOption⟩) ++
    (GnosisSafeWithdrawal.findUnauditedWithdrawals (db .unauditedWithdrawals)).map
      .unauditedWithdrawal ++
    (GnosisSafeDeposit.findUnauditedDeposits (db .unauditedSafeDeposits)).map
      fun d => .unauditedSafeDeposit ⟨d⟩

/-- Both pages that are asked for are answered. -/
theorem useTableData_eq (burnRedemptionMemo : BurnTxOut → Except Error Bytes)
    (localDate : DateTime → ℤ) (db : TableRequest → Db) :
    useTableData burnRedemptionMemo localDate db = .ok {
      sortedData := sortData localDate (tableRows burnRedemptionMemo db)
      totalUnauditedDeposits := Double.sum
        ((GnosisSafeDeposit.findUnauditedDeposits (db .unauditedSafeDeposits)).map
          fun d => Double.round d.amount.toInt)
      totalUnauditedBurns := Double.sum
        (((BurnTxOut.findUnauditedBurnTxOuts (db .unauditedBurns)).filter
          fun b => decide (b.tokenId = 1)).map fun b => Double.round b.amount.toInt) } := by
  simp only [useTableData, ReserveAuditorHttpService.getAuditedMints,
    ReserveAuditorHttpService.getAuditedBurns, ReserveAuditorHttpService.getUnauditedMints,
    ReserveAuditorHttpService.getUnauditedBurnTxOuts,
    ReserveAuditorHttpService.getUnauditedWithdrawals,
    ReserveAuditorHttpService.getUnauditedGnosisDeposits, AuditedMint.listWithMintAndDeposit,
    AuditedBurn.listWithBurnAndWithdrawal, page_first, Except.map, bind, Except.bind, pure,
    Except.pure, List.filter_map, tableRows, List.map_map, Function.comp_def]

theorem useTableData_shows (burnRedemptionMemo : BurnTxOut → Except Error Bytes)
    (localDate : DateTime → ℤ) (db : TableRequest → Db) (hintact : ∀ r, Intact (db r))
    (hgrow : ∀ q r, Grows (db q) (db r) ∨ Grows (db r) (db q)) :
    ∃ table, useTableData burnRedemptionMemo localDate db = .ok table ∧
      TableShows localDate db table.sortedData := by
  have hmints (q r : TableRequest) :=
    (hgrow q r).imp (fun h => h.joinedMints (hintact q)) fun h => h.joinedMints (hintact r)
  have hburns (q r : TableRequest) :=
    (hgrow q r).imp (fun h => h.joinedBurns (hintact q)) fun h => h.joinedBurns (hintact r)
  have hkeep {α : Type} (l : List α) : [] = l.filter fun _ => !true := by simp
  have hrows {α : Type} (f : TTableData → Option α) :=
    (sortData_perm localDate (tableRows burnRedemptionMemo db)).filterMap f
  refine ⟨_,useTableData_eq burnRedemptionMemo localDate db,sortData_sorted _ _,?_,?_,?_,?_⟩
  · refine showsAll_of_splits _ (hintact _).splits_mints (hmints _ _) rfl
      ((hrows _).trans (.of_eq ?_))
    simp [tableRows, TTableData.mint?, List.filterMap_append, List.filterMap_map,
      Function.comp_def, -List.map_take]
  · refine showsAll_of_splits (fun _ => true) (hintact _).splits_deposits (hmints _ _) (hkeep _)
      ((hrows _).trans (.of_eq ?_))
    simp [tableRows, TTableData.deposit?, List.filterMap_append, List.filterMap_map,
      Function.comp_def, -List.map_take]
  · refine showsAll_of_splits _ (hintact _).splits_burns (hburns _ _) rfl
      ((hrows _).trans (.of_eq ?_))
    simp [tableRows, TTableData.burn?, List.filterMap_append, List.filterMap_map,
      Function.comp_def, -List.map_take]
  · refine showsAll_of_splits (fun _ => true) (hintact _).splits_withdrawals (hburns _ _) (hkeep _)
      ((hrows _).trans (.of_eq ?_))
    simp [tableRows, TTableData.withdrawal?, List.filterMap_append, List.filterMap_map,
      Function.comp_def, -List.map_take]

/-! ### What the figures say -/

/-- The totals that the page computes with are numbers that doubles have as they are. -/
structure AmountsFit (s : Db) : Prop where
  deposits : ((GnosisSafeDeposit.findUnauditedDeposits s).map fun d => d.getAmount.toNat).sum ≤ 2^53
  mints : getMintTotal 1 s ≤ 2^53
  burns : getBurnTotal 1 s ≤ 2^53

/-- Every token is eUSD, the token that the page is about. -/
def GnosisSafeConfig.OnlyEusd (config : GnosisSafeConfig) : Prop :=
  ∀ safe ∈ config.safes, ∀ token ∈ safe.tokens, token.tokenId = 1

/-- What is in custody is the total supply, what waits to be minted and what waits to be unwrapped,
but for what was minted and what was withdrawn without an audit. -/
def FiguresAgree (config : GnosisSafeConfig)
    (burnRedemptionMemo : BurnTxOut → Except Error Bytes) (localDate : DateTime → ℤ) (s : Db) :
    Prop :=
  ∀ t table, shownToken config = some t →
    useTableData burnRedemptionMemo localDate (fun _ => s) = .ok table →
    custody config t s+mintedAmount t (ReserveAuditorHttpService.getUnauditedMints s)+
        withdrawnAmount config t (ReserveAuditorHttpService.getUnauditedWithdrawals s) =
      totalSupply t s s+table.totalUnauditedDeposits+table.totalUnauditedBurns

theorem toInt_of_lt {a : Int64} (h : a.toUInt64.toNat < 2^63) : a.toInt = a.toUInt64.toNat := by
  have ha := toInt_toInt64 a.toUInt64
  rwa [Int64.toInt64_toUInt64, if_pos h] at ha

theorem onlyEusd_auditedTokenId (h : config.OnlyEusd) {safeAddr tokenAddr : EthAddr}
    (hsome : (auditedTokenId config safeAddr tokenAddr).isSome = true) :
    auditedTokenId config safeAddr tokenAddr = some 1 := by
  obtain ⟨t,ht⟩ := Option.isSome_iff_exists.mp hsome
  have hfound := ht
  simp only [auditedTokenId, Option.bind_eq_bind, Option.bind_eq_some_iff, Option.pure_def,
    Option.some.injEq] at hfound
  obtain ⟨safe,hsafe,token,htoken,rfl⟩ := hfound
  rw [ht, h safe (List.mem_of_find?_eq_some hsafe) token (List.mem_of_find?_eq_some htoken)]

/-- Amounts that are small together are added up as they are. -/
theorem sum_amounts {α : Type} (l : List α) (amount : α → Int64)
    (h : (l.map fun a => (amount a).toUInt64.toNat).sum ≤ 2^53) :
    Double.sum (l.map fun a => Double.round (amount a).toInt) =
      (l.map fun a => (amount a).toUInt64.toNat).sum := by
  have hround : (l.map fun a => Double.round (amount a).toInt) =
      (l.map fun a => (amount a).toUInt64.toNat).map Nat.cast := by
    rw [List.map_map]
    refine List.map_congr_left fun a ha => ?_
    have hle : (amount a).toUInt64.toNat ≤ 2^53 :=
      (List.single_le_sum (by simp) _ (List.mem_map_of_mem ha)).trans h
    rw [toInt_of_lt (hle.trans_lt (by norm_num))]
    exact Double.round_of_le (by rw [Nat.abs_cast]; exact_mod_cast hle)
  rw [hround, Double.sum_of_le (by simp) (by rw [← Nat.cast_list_sum]; exact_mod_cast h),
    ← Nat.cast_list_sum]

theorem sum_unauditedDeposits (h : config.OnlyEusd) (hfit : AmountsFit s)
    (haudited : ∀ d ∈ s.gnosisSafeDeposits.rows, (d.auditedTokenId config).isSome = true) :
    Double.sum ((GnosisSafeDeposit.findUnauditedDeposits s).map
        fun d => Double.round d.amount.toInt) =
      depositedAmount config 1 (GnosisSafeDeposit.findUnauditedDeposits s) := by
  rw [sum_amounts _ GnosisSafeDeposit.amount hfit.deposits, depositedAmount]
  -- every deposit is of an audited token, and so of eUSD
  refine congrArg (fun ns : List ℕ => (ns.sum : ℤ)) (List.map_congr_left fun d hd => ?_)
  have hsome := haudited d (List.mem_filter.mp hd).1
  simp only [GnosisSafeDeposit.auditedTokenId, onlyEusd_auditedTokenId h hsome, if_true,
    GnosisSafeDeposit.getAmount]

theorem sum_unauditedBurns (hfit : AmountsFit s) :
    Double.sum (((BurnTxOut.findUnauditedBurnTxOuts s).filter fun b => decide (b.tokenId = 1)).map
        fun b => Double.round b.amount.toInt) =
      burnedAmount 1 (BurnTxOut.findUnauditedBurnTxOuts s) := by
  have htoken (b : BurnTxOut) : b.tokenId = 1 ↔ b.getTokenId = 1 :=
    ⟨fun h => congrArg Int64.toUInt64 h,fun h => congrArg UInt64.toInt64 h⟩
  have hburned : (((BurnTxOut.findUnauditedBurnTxOuts s).filter
      fun b => decide (b.tokenId = 1)).map fun b => b.getAmount.toNat).sum =
        burnedAmount 1 (BurnTxOut.findUnauditedBurnTxOuts s) := by
    rw [sum_filter_map]
    simp only [decide_eq_true_eq, htoken, burnedAmount]
  -- the burns that wait are among all burns
  have hle : burnedAmount 1 (BurnTxOut.findUnauditedBurnTxOuts s) ≤ 2^53 := by
    refine le_trans ?_ hfit.burns
    rw [getBurnTotal_eq_burnedAmount]
    exact (List.filter_sublist.map _).sum_le_sum (by simp)
  rw [sum_amounts _ BurnTxOut.amount (hburned.trans_le hle)]
  exact congrArg Nat.cast hburned

/-- What is minted and burned is subtracted as it is. -/
theorem totalSupply_eq (hfit : AmountsFit s) :
    totalSupply 1 s s = (getMintTotal 1 s : ℤ)-getBurnTotal 1 s := by
  have hround {n : ℕ} (hn : n ≤ 2^53) : Double.round n = n :=
    Double.round_of_le (by rw [Nat.abs_cast]; exact_mod_cast hn)
  have hm := hfit.mints
  have hb := hfit.burns
  rw [totalSupply, hround hm, hround hb]
  exact Double.round_of_le (abs_le.mpr ⟨by omega,by omega⟩)

theorem figuresAgree (burnRedemptionMemo : BurnTxOut → Except Error Bytes)
    (localDate : DateTime → ℤ) (hi : Audited config s) (hintact : Intact s) (h : config.OnlyEusd)
    (hfit : AmountsFit s)
    (haudited : ∀ d ∈ s.gnosisSafeDeposits.rows, (d.auditedTokenId config).isSome = true) :
    FiguresAgree config burnRedemptionMemo localDate s := by
  intro t table ht htable
  simp only [shownToken, Option.bind_eq_bind, Option.bind_eq_some_iff, Option.pure_def,
    Option.some.injEq] at ht
  obtain ⟨safe,hsafe,token,htoken,rfl⟩ := ht
  rw [useTableData_eq] at htable
  obtain rfl := Except.ok.inj htable
  rw [h safe (List.mem_of_mem_head? hsafe) token (List.mem_of_mem_head? htoken)]
  have hmints := hi.mints_balance hintact 1
  have hburns := hi.burns_balance hintact 1
  change _ = totalSupply 1 s s+Double.sum _+Double.sum _
  rw [totalSupply_eq hfit, sum_unauditedDeposits h hfit haudited, sum_unauditedBurns hfit, custody,
    ReserveAuditorHttpService.getUnauditedMints, ReserveAuditorHttpService.getUnauditedWithdrawals]
  omega

/-- The databases that the requests are answered from, each after so many steps of a run. -/
def answeredFrom (ext : Externals) (serde : Serde) (steps : List (Step config))
    (moment : TableRequest → ℕ) (r : TableRequest) : Db :=
  Step.run ext serde (steps.take (moment r))

/-- Whenever the requests are answered during a run, the table shows what is stored, up to what is
matched between the answers. And if all is answered after the run, the figures add up. -/
theorem run_page_shows (ext : Externals) (serde : Serde)
    (burnRedemptionMemo : BurnTxOut → Except Error Bytes) (localDate : DateTime → ℤ)
    (config : GnosisSafeConfig) (steps : List (Step config)) (moment : TableRequest → ℕ) :
    (∃ table, useTableData burnRedemptionMemo localDate (answeredFrom ext serde steps moment) =
      .ok table ∧ TableShows localDate (answeredFrom ext serde steps moment) table.sortedData) ∧
    (config.Distinct → config.OnlyEusd → AmountsFit (Step.run ext serde steps) →
      FiguresAgree config burnRedemptionMemo localDate (Step.run ext serde steps)) := by
  constructor
  · refine useTableData_shows burnRedemptionMemo localDate _ (fun r => intact_run _) fun q r => ?_
    exact (le_total (moment q) (moment r)).imp (grows_run steps _ _) (grows_run steps _ _)
  · intro hd h hfit
    exact figuresAgree burnRedemptionMemo localDate (audited_run hd steps) (intact_run steps) h hfit
      (depositsAudited_run hd steps)

/-- The audited pairs are answered before the mint is synced, and the unaudited rows after it. -/
def auditedFirst : TableRequest → ℕ
  | .auditedMints | .auditedBurns => 1
  | _ => 3

/-- In a browser whose time zone is UTC. A `Date` has milliseconds only. -/
def utcDate (t : DateTime) : ℤ := t/10^6

theorem auditedPair_page_shows :
    let db := answeredFrom Reference.externals Reference.serde auditedPair auditedFirst
    (∃ table, useTableData (fun _ => .ok []) utcDate db = .ok table ∧
      TableShows utcDate db table.sortedData) ∧
    FiguresAgree Reference.config (fun _ => .ok []) utcDate
      (Step.run Reference.externals Reference.serde auditedPair) := by
  obtain ⟨hshows,hfigures⟩ := run_page_shows Reference.externals Reference.serde (fun _ => .ok [])
    utcDate Reference.config auditedPair auditedFirst
  refine ⟨hshows,hfigures Reference.config_distinct ?_ ?_⟩
  · intro safe hsafe token htoken
    simp only [Reference.config, List.mem_cons, List.not_mem_nil, or_false] at hsafe
    rcases hsafe with rfl | rfl <;> rw [List.mem_singleton.mp htoken] <;> rfl
  · have hfit : let s := Step.run Reference.externals Reference.serde auditedPair
        ((GnosisSafeDeposit.findUnauditedDeposits s).map fun d => d.getAmount.toNat).sum ≤ 2^53 ∧
          getMintTotal 1 s ≤ 2^53 ∧ getBurnTotal 1 s ≤ 2^53 := by
      decide +kernel
    exact ⟨hfit.1,hfit.2.1,hfit.2.2⟩

end ReserveAuditor
