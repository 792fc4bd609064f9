import ReserveAuditor.Intact
import ReserveAuditor.Lib.Listing

/-! The audit report: what the listings of audited and of unaudited objects hold together. -/
namespace ReserveAuditor
open Txn Relational

/-- The ids of the audit tables are `i32`. -/
structure IdsFit (s : Db) : Prop where
  mints : ∀ a ∈ s.auditedMints.rows, key a < 2^31
  burns : ∀ a ∈ s.auditedBurns.rows, key a < 2^31

/-- The listings together hold every stored object once, and the pages of `p` rows of a listing hold
all of it. -/
structure AuditReport (p : UInt64) (s : Db) : Prop where
  mintList : AuditedMint.listWithMintAndDeposit none none s = .ok (AuditedMint.withMintAndDeposit s)
  mintPages : AllPaged
    (fun i => AuditedMint.listWithMintAndDeposit (some (.ofNat (i*p.toNat))) (some p) s)
    (AuditedMint.withMintAndDeposit s)
  mints : Splits s.mintTxs.rows ((AuditedMint.withMintAndDeposit s).map fun r => r.2.1)
    (MintTx.findUnauditedMintTxs s)
  deposits : Splits s.gnosisSafeDeposits.rows
    ((AuditedMint.withMintAndDeposit s).map fun r => r.2.2)
    (GnosisSafeDeposit.findUnauditedDeposits s)
  burnList : AuditedBurn.listWithBurnAndWithdrawal none none s =
    .ok (AuditedBurn.withBurnAndWithdrawal s)
  burnPages : AllPaged
    (fun i => AuditedBurn.listWithBurnAndWithdrawal (some (.ofNat (i*p.toNat))) (some p) s)
    (AuditedBurn.withBurnAndWithdrawal s)
  burns : Splits s.burnTxOuts.rows
    ((AuditedBurn.withBurnAndWithdrawal s).map fun r => r.2.1)
    (BurnTxOut.findUnauditedBurnTxOuts s)
  withdrawals : Splits s.gnosisSafeWithdrawals.rows
    ((AuditedBurn.withBurnAndWithdrawal s).map fun r => r.2.2)
    (GnosisSafeWithdrawal.findUnauditedWithdrawals s)

variable {s : Db}

/-! ### Pages -/

theorem toInt64_toInt_toNat {a : UInt64} (ha : a.toNat < 2^63) : a.toInt64.toInt.toNat = a.toNat := by
  rw [toInt_toInt64, if_pos ha]
  exact Int.toNat_natCast _

/-- A page whose offset and size survive the cast. -/
theorem page_eq_window {α : Type} (rows : List α) {o p : UInt64} (ho : o.toNat < 2^63)
    (hp : p.toNat < 2^63) :
    page (some o) (some p) rows = .ok ((rows.drop o.toNat).take p.toNat) := by
  have hpos : ¬p.toInt64 < 0 := by
    rw [Int64.lt_iff_toInt_lt, toInt_toInt64, if_pos hp]
    exact not_lt.mpr (Int.natCast_nonneg _)
  simp only [page, hpos, ite_false, toInt64_toInt_toNat ho, toInt64_toInt_toNat hp]

/-- Offsets do not reach `2^63` before the pages end, since the last one starts at a row. -/
theorem paged_listing {α : Type} (rows : List α) {p : UInt64} (hp : 1 ≤ p.toNat)
    (hp63 : p.toNat < 2^63) (hlen : rows.length ≤ 2^31) :
    AllPaged (fun i => page (some (.ofNat (i*p.toNat))) (some p) rows) rows := by
  refine ⟨_,fun i => rfl,paged_of_windows hp fun i hi => ?_⟩
  have hoffset : i*p.toNat < 2^63 := by
    rcases i with _ | _ | i
    · simp
    · simpa using hp63
    · have hmul : (i+1+1)*p.toNat = i*p.toNat+p.toNat+p.toNat := by ring
      omega
  have hpage := page_eq_window rows ((toNat_ofNat hoffset).symm ▸ hoffset) hp63
  rw [toNat_ofNat hoffset] at hpage
  exact Except.ok.inj hpage

/-! ### Audited and unaudited -/

theorem withBurnAndWithdrawal_sublist (s : Db) :
    ((AuditedBurn.withBurnAndWithdrawal s).map Prod.fst).Sublist s.auditedBurns.rows := by
  refine map_filterMap_sublist (fun a p hp => ?_) _
  simp only [Option.bind_eq_bind, Option.bind_eq_some_iff, Option.pure_def,
    Option.some.injEq] at hp
  obtain ⟨_,-,_,-,rfl⟩ := hp
  rfl

theorem nodup_refs {α β : Type} {joined : List (α × β)} {rows : List α} {ref : α → ℕ}
    (hsub : (joined.map Prod.fst).Sublist rows) (h : (rows.map ref).Nodup) :
    (joined.map fun r => ref r.1).Nodup := by
  have hrefs := (hsub.map ref).nodup h
  rwa [List.map_map] at hrefs

theorem Intact.mint_joined (hi : Intact s) {a : AuditedMint} (ha : a ∈ s.auditedMints.rows) :
    ∃ r ∈ AuditedMint.withMintAndDeposit s, r.1 = a := by
  obtain ⟨⟨m,hm⟩,d,hd⟩ := hi.mints a ha
  exact ⟨(a,m,d),(mem_withMintAndDeposit s _).mpr ⟨ha,hm,hd⟩,rfl⟩

theorem Intact.burn_joined (hi : Intact s) {a : AuditedBurn} (ha : a ∈ s.auditedBurns.rows) :
    ∃ r ∈ AuditedBurn.withBurnAndWithdrawal s, r.1 = a := by
  obtain ⟨⟨b,hb⟩,w,hw⟩ := hi.burns a ha
  exact ⟨(a,b,w),(mem_withBurnAndWithdrawal s _).mpr ⟨ha,hb,hw⟩,rfl⟩

/-- An object is audited if a joined row refers to it. -/
theorem any_ref_iff {α β : Type} {joined : List (α × β)} {rows : List α} {ref : α → ℕ}
    (hjoined : ∀ a ∈ rows, ∃ r ∈ joined, r.1 = a) (hrows : ∀ r ∈ joined, r.1 ∈ rows)
    (id : Option ℕ) : (rows.any fun a => decide (some (ref a) = id)) = true ↔
      ∃ r ∈ joined, id = some (ref r.1) := by
  rw [List.any_eq_true]
  constructor
  · rintro ⟨a,ha,hid⟩
    obtain ⟨r,hr,rfl⟩ := hjoined a ha
    exact ⟨r,hr,(of_decide_eq_true hid).symm⟩
  · rintro ⟨r,hr,hid⟩
    exact ⟨r.1,hrows r hr,decide_eq_true hid.symm⟩

/-! A mint is listed as audited when a row refers to it, and as unaudited when none does; and so for
the other objects. -/

theorem Intact.splits_mints (hi : Intact s) : Splits s.mintTxs.rows
    ((AuditedMint.withMintAndDeposit s).map fun r => r.2.1) (MintTx.findUnauditedMintTxs s) :=
  splits_of_join (fun r hr => ((mem_withMintAndDeposit s r).mp hr).2.1)
    (nodup_refs (withMintAndDeposit_sublist s) hi.once.mints) fun m _ =>
      any_ref_iff (fun _ => hi.mint_joined) (fun r hr => ((mem_withMintAndDeposit s r).mp hr).1) m.id

theorem Intact.splits_deposits (hi : Intact s) : Splits s.gnosisSafeDeposits.rows
    ((AuditedMint.withMintAndDeposit s).map fun r => r.2.2)
    (GnosisSafeDeposit.findUnauditedDeposits s) :=
  splits_of_join (fun r hr => ((mem_withMintAndDeposit s r).mp hr).2.2)
    (nodup_refs (withMintAndDeposit_sublist s) hi.once.deposits) fun d _ =>
      any_ref_iff (fun _ => hi.mint_joined) (fun r hr => ((mem_withMintAndDeposit s r).mp hr).1) d.id

theorem Intact.splits_burns (hi : Intact s) : Splits s.burnTxOuts.rows
    ((AuditedBurn.withBurnAndWithdrawal s).map fun r => r.2.1) (BurnTxOut.findUnauditedBurnTxOuts s) :=
  splits_of_join (fun r hr => ((mem_withBurnAndWithdrawal s r).mp hr).2.1)
    (nodup_refs (withBurnAndWithdrawal_sublist s) hi.once.burns) fun b _ =>
      any_ref_iff (fun _ => hi.burn_joined) (fun r hr => ((mem_withBurnAndWithdrawal s r).mp hr).1) b.id

theorem Intact.splits_withdrawals (hi : Intact s) : Splits s.gnosisSafeWithdrawals.rows
    ((AuditedBurn.withBurnAndWithdrawal s).map fun r => r.2.2)
    (GnosisSafeWithdrawal.findUnauditedWithdrawals s) :=
  splits_of_join (fun r hr => ((mem_withBurnAndWithdrawal s r).mp hr).2.2)
    (nodup_refs (withBurnAndWithdrawal_sublist s) hi.once.withdrawals) fun w _ =>
      any_ref_iff (fun _ => hi.burn_joined) (fun r hr => ((mem_withBurnAndWithdrawal s r).mp hr).1) w.id

theorem Intact.auditReport (hi : Intact s) (hids : IdsFit s) {p : UInt64} (hp : 1 ≤ p.toNat)
    (hp63 : p.toNat < 2^63) : AuditReport p s where
  mintList := rfl
  mintPages := paged_listing _ hp hp63
    ((List.length_filterMap_le _ _).trans (Table.length_le hids.mints))
  mints := hi.splits_mints
  deposits := hi.splits_deposits
  burnList := rfl
  burnPages := paged_listing _ hp hp63
    ((List.length_filterMap_le _ _).trans (Table.length_le hids.burns))
  burns := hi.splits_burns
  withdrawals := hi.splits_withdrawals

/-- The listings of audited and of unaudited objects split what is stored, in every state that
scanners and Gnosis threads reach. -/
theorem scanned_auditReport (ext : Externals) (serde : Serde) {ι : Type} [DecidableEq ι]
    (c : ScanState ι) (h : Scanned ext serde c) (hids : IdsFit c.db) (p : UInt64)
    (hp : 1 ≤ p.toNat) (hp63 : p.toNat < 2^63) : AuditReport p c.db :=
  h.intact.auditReport hids hp hp63

section scans
variable {ι : Type} [DecidableEq ι]

/-- The thread of a safe processed a transaction. -/
def ScanState.processed (serde : Serde) (safe : AuditedSafeConfig) (tx : RawGnosisTransaction)
    (c : ScanState ι) : ScanState ι := ⟨(safe.processRawTransaction serde tx c.db).state,c.held⟩

/-- A scanner read that a block is next, and synced it. -/
def ScanState.synced (ext : Externals) (config : Option GnosisSafeConfig) (b : BlockData) (i : ι)
    (c : ScanState ι) : ScanState ι where
  db := (syncAndAudit ext config b c.db).state
  held := Function.update (Function.update c.held i (some b.block.index)) i none

variable {ext : Externals} {serde : Serde} {c : ScanState ι}

theorem Scanned.processed (h : Scanned ext serde c) (safe : AuditedSafeConfig)
    (tx : RawGnosisTransaction) : Scanned ext serde (c.processed serde safe tx) :=
  h.step (.gnosis c safe tx)

theorem Scanned.synced (h : Scanned ext serde c) (config : Option GnosisSafeConfig) {b : BlockData}
    (i : ι) (hnext : nextBlockToSync c.db = b.block.index) :
    Scanned ext serde (c.synced ext config b i) := by
  have hread := h.step (.read c i)
  rw [hnext] at hread
  exact hread.step (.sync _ i config b (Function.update_self _ _ _))

end scans

def depositOfThree : RawGnosisTransaction :=
  Reference.depositTx '1' [(Reference.safeAddrA,"3000000500000")]

/-- The block has the mint for the deposit, and a burn. -/
def mintAndBurn : BlockData :=
  Reference.blockOf 0 [] [Reference.mintFor 0x11 3] [Reference.burnOf (List.replicate 32 9) 2]

def burnWithdrawal : RawGnosisTransaction :=
  Reference.withdrawalTx '2' Reference.safeAddrB "2000000000000" (List.replicate 32 9)

def depositScan : ScanState Unit :=
  ScanState.processed Reference.serde Reference.safeA depositOfThree ⟨initialDb,fun _ => none⟩

/-- A deposit, its mint, a burn and its withdrawal, with one scanner. -/
def auditedScan : ScanState Unit :=
  (depositScan.synced Reference.externals (some Reference.config) mintAndBurn ()).processed
    Reference.serde Reference.safeB burnWithdrawal

theorem auditedScan_scanned : Scanned Reference.externals Reference.serde auditedScan := by
  have hdeposit : Scanned Reference.externals Reference.serde depositScan :=
    Scanned.start.processed Reference.safeA depositOfThree
  exact (hdeposit.synced (some Reference.config) () (by decide +kernel)).processed Reference.safeB
    burnWithdrawal

theorem auditedScan_auditReport : AuditReport 1 auditedScan.db := by
  have hids : (∀ a ∈ auditedScan.db.auditedMints.rows, key a < 2^31) ∧
      ∀ a ∈ auditedScan.db.auditedBurns.rows, key a < 2^31 := by
    decide +kernel
  exact scanned_auditReport Reference.externals Reference.serde auditedScan auditedScan_scanned
    ⟨hids.1,hids.2⟩ 1 (by decide) (by decide)

end ReserveAuditor
