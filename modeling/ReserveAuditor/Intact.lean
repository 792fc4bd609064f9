import ReserveAuditor.Backing
import ReserveAuditor.Parts
import ReserveAuditor.Scanner

/-! What every part of the auditor keeps, under any configuration: the rows that refer to others find
them, and nothing is matched twice. -/
namespace ReserveAuditor
open Txn Relational

/-- The rows of the audit tables refer to stored rows, each of them once, and the hashes of
withdrawals are recorded. -/
structure Intact (s : Db) : Prop where
  mints : MintRefs s
  burns : BurnRefs s
  once : MatchedOnce s
  withdrawals : ∀ w ∈ s.gnosisSafeWithdrawals.rows, hashProcessed s w.ethTxHash.toString = true

/-- What held still holds. -/
def Keeps (I : Db → Prop) (s s' : Db) : Prop := I s → I s'

instance (I : Db → Prop) : IsPreorder Db (Keeps I) where
  refl _ h := h
  trans _ _ _ h h' := h' ∘ h

variable {s s' : Db} {α : Type}

/-! ### Rows are added -/

/-- More rows to refer to, and the same references. -/
theorem Intact.grown (h : Intact s) (hms : s.mintTxs.rows <+: s'.mintTxs.rows)
    (hds : s.gnosisSafeDeposits.rows <+: s'.gnosisSafeDeposits.rows)
    (hbs : s.burnTxOuts.rows <+: s'.burnTxOuts.rows)
    (hws : s.gnosisSafeWithdrawals.rows <+: s'.gnosisSafeWithdrawals.rows)
    (htxs : s.gnosisSafeTxs <+: s'.gnosisSafeTxs)
    (hnew : ∀ w ∈ s'.gnosisSafeWithdrawals.rows, w ∉ s.gnosisSafeWithdrawals.rows →
      hashProcessed s' w.ethTxHash.toString = true)
    (ham : s'.auditedMints = s.auditedMints) (hab : s'.auditedBurns = s.auditedBurns) :
    Intact s' := by
  obtain ⟨ms,hms⟩ := hms
  obtain ⟨ds,hds⟩ := hds
  obtain ⟨bs,hbs⟩ := hbs
  obtain ⟨ws,hws⟩ := hws
  obtain ⟨txs,htxs⟩ := htxs
  refine ⟨fun a ha => ?_,fun a ha => ?_,⟨?_,?_,?_,?_⟩,fun w hw => ?_⟩
  -- what a match refers to is found in the longer table
  · obtain ⟨⟨m,hm⟩,d,hd⟩ := h.mints a (ham ▸ ha)
    exact ⟨⟨m,Table.find_append hms.symm hm⟩,d,Table.find_append hds.symm hd⟩
  · obtain ⟨⟨b,hb⟩,w,hw⟩ := h.burns a (hab ▸ ha)
    exact ⟨⟨b,Table.find_append hbs.symm hb⟩,w,Table.find_append hws.symm hw⟩
  · exact ham ▸ h.once.mints
  · exact ham ▸ h.once.deposits
  · exact hab ▸ h.once.burns
  · exact hab ▸ h.once.withdrawals
  · by_cases hold : w ∈ s.gnosisSafeWithdrawals.rows
    · rw [hashProcessed, ← htxs, List.any_append, Bool.or_eq_true]
      exact Or.inl (h.withdrawals w hold)
    · exact hnew w hw hold

/-- The tables that rows refer to, or that refer to rows, are the same. -/
theorem Intact.of_eq (h : Intact s) (hms : s'.mintTxs = s.mintTxs)
    (hds : s'.gnosisSafeDeposits = s.gnosisSafeDeposits) (hbs : s'.burnTxOuts = s.burnTxOuts)
    (hws : s'.gnosisSafeWithdrawals = s.gnosisSafeWithdrawals)
    (htxs : s'.gnosisSafeTxs = s.gnosisSafeTxs) (ham : s'.auditedMints = s.auditedMints)
    (hab : s'.auditedBurns = s.auditedBurns) : Intact s' := by
  refine h.grown (hms ▸ List.prefix_rfl) (hds ▸ List.prefix_rfl) (hbs ▸ List.prefix_rfl)
    (hws ▸ List.prefix_rfl) (htxs ▸ List.prefix_rfl) (fun w hw hnot => ?_) ham hab
  rw [hws] at hw
  exact absurd hw hnot

theorem nodup_map_concat {β : Type} {rows : List α} {f : α → β} {a : α} (h : (rows.map f).Nodup)
    (ha : ¬∃ x ∈ rows, f x = f a) : ((rows ++ [a]).map f).Nodup := by
  rw [List.map_append, List.map_singleton, ← List.concat_eq_append]
  exact h.concat fun hmem => ha (List.mem_map.mp hmem)

/-! ### Matches -/

/-- A mint and a deposit that were not matched are matched with each other. -/
theorem Intact.linkMint (h : Intact s) {mintId depositId : ℕ}
    (hm : ¬∃ a ∈ s.auditedMints.rows, a.mintTxId = mintId)
    (hd : ¬∃ a ∈ s.auditedMints.rows, a.gnosisSafeDepositId = depositId)
    (ha : (AuditedMint.associateDepositWithMint depositId mintId).Returns s () s') : Intact s' := by
  simp only [AuditedMint.associateDepositWithMint, Program.returns_bind, returns_insertInto,
    Table.insert_eq_ok, Bool.and_eq_true, Program.returns_pure] at ha
  obtain ⟨n,_,⟨t,⟨-,-,ht⟩,⟨hmint,hdeposit⟩,rfl⟩,-,rfl⟩ := ha
  have hrows : ({ s with auditedMints := t } : Db).auditedMints.rows = _ := ht
  refine ⟨fun a ha => ?_,h.burns,⟨?_,?_,h.once.burns,h.once.withdrawals⟩,h.withdrawals⟩
  · rw [hrows] at ha
    -- the new match refers to stored rows, as its foreign keys were checked
    rcases List.mem_append.mp ha with ha | ha
    · exact h.mints a ha
    · rw [List.mem_singleton.mp ha]
      exact ⟨Option.isSome_iff_exists.mp hmint,Option.isSome_iff_exists.mp hdeposit⟩
  · rw [hrows]
    exact nodup_map_concat h.once.mints hm
  · rw [hrows]
    exact nodup_map_concat h.once.deposits hd

/-- A burn and a withdrawal that were not matched are matched with each other. -/
theorem Intact.linkBurn (h : Intact s) {burnId withdrawalId : ℕ}
    (hb : ¬∃ a ∈ s.auditedBurns.rows, a.burnTxOutId = burnId)
    (hw : ¬∃ a ∈ s.auditedBurns.rows, a.gnosisSafeWithdrawalId = withdrawalId)
    (ha : (AuditedBurn.associateWithdrawalWithBurn withdrawalId burnId).Returns s () s') :
    Intact s' := by
  simp only [AuditedBurn.associateWithdrawalWithBurn, Program.returns_bind, returns_insertInto,
    Table.insert_eq_ok, Bool.and_eq_true, Program.returns_pure] at ha
  obtain ⟨n,_,⟨t,⟨-,-,ht⟩,⟨hburn,hwithdrawal⟩,rfl⟩,-,rfl⟩ := ha
  have hrows : ({ s with auditedBurns := t } : Db).auditedBurns.rows = _ := ht
  refine ⟨h.mints,fun a ha => ?_,⟨h.once.mints,h.once.deposits,?_,?_⟩,h.withdrawals⟩
  · rw [hrows] at ha
    rcases List.mem_append.mp ha with ha | ha
    · exact h.burns a ha
    · rw [List.mem_singleton.mp ha]
      exact ⟨Option.isSome_iff_exists.mp hburn,Option.isSome_iff_exists.mp hwithdrawal⟩
  · rw [hrows]
    exact nodup_map_concat h.once.burns hb
  · rw [hrows]
    exact nodup_map_concat h.once.withdrawals hw

theorem CountFrame.intact (h : CountFrame s s') (hi : Intact s) : Intact s' := by
  obtain ⟨c,-,rfl⟩ := h
  exact hi.of_eq rfl rfl rfl rfl rfl rfl rfl

section tryMatch
variable {β : Type} {objectId : Option ℕ} {precheck : Except Error Unit}
  {existing : ℕ → Db → Option String} {onExisting : Conn Unit} {find : Db → Option β}
  {check : β → Except Error Unit} {associate : ℕ → β → Conn Unit} {countError : Error → Counter}

/-- A matching call keeps what a match of two unmatched objects keeps. -/
theorem intact_tryMatch (hcount : ∀ e, (countError e).ofLedger = false)
    (hpanic : ∀ s, ¬(tryMatch objectId precheck existing onExisting find check associate
      countError).Panics s)
    (hlink : ∀ s id b s', Intact s → existing id s = none → find s = some b →
      (associate id b).Returns s () s' → Intact s') :
    Program.Within (Keeps Intact)
      (tryMatch objectId precheck existing onExisting find check associate countError) := by
  intro s hi
  rcases Program.returns_or_fails_or_panics (tryMatch objectId precheck existing onExisting find
    check associate countError) s with ⟨b,hr⟩ | ⟨e,hf⟩ | hp
  · obtain ⟨id,-,-,hnone,hfind,-,ha⟩ := (returns_tryMatch s _ b).mp hr
    exact hlink s id b _ hi hnone hfind ha
  -- a failure changes nothing but the counters
  · exact (fails_tryMatch hcount hf).intact hi
  · exact (hpanic s hp).elim

end tryMatch

/-- What a search for the unlinked finds is in no link. -/
theorem not_linked_of_find? {ρ κ ι : Type} [Record ρ] [DecidableEq κ] {t : Table ρ} {links : List ι}
    {ref : ι → ℕ} {keyOf : ρ → κ} {k : κ} {r : ρ}
    (h : t.rows.find? (fun x => decide (keyOf x = k) &&
      !links.any fun a => decide (some (ref a) = Record.id x)) = some r) :
    ¬∃ a ∈ links, ref a = key r := by
  obtain ⟨-,-,hfree⟩ := found_of_find? h
  simp only [id_of_find? h, Option.some.injEq, List.any_eq_false, decide_eq_true_eq] at hfree
  rintro ⟨a,ha,he⟩
  exact hfree a ha he

theorem intact_matchDeposit (d : GnosisSafeDeposit) (safe : AuditedSafeConfig) :
    Program.Within (Keeps Intact) (AuditedMint.tryMatchDepositWithMint d safe) := by
  refine intact_tryMatch (by intro e; cases e <;> rfl) (fun s => not_panics_matchDeposit d safe)
    fun s id m s' hi hnone hfind ha => ?_
  have hid : m.id = some (key m) := id_of_find? hfind
  rw [hid, unwrap_bind] at ha
  have hmint : ¬∃ a ∈ s.auditedMints.rows, a.mintTxId = key m := not_linked_of_find? hfind
  exact hi.linkMint hmint ((existing_mint_iff hi.mints _ id _).mp hnone) ha

theorem intact_matchMint (m : MintTx) (config : GnosisSafeConfig) :
    Program.Within (Keeps Intact) (AuditedMint.tryMatchMintWithDeposit m config) := by
  refine intact_tryMatch (by intro e; cases e <;> rfl) (fun s => not_panics_matchMint m config)
    fun s id d s' hi hnone hfind ha => ?_
  have hid : d.id = some (key d) := id_of_find? hfind
  rw [hid, unwrap_bind] at ha
  have hdeposit : ¬∃ a ∈ s.auditedMints.rows, a.gnosisSafeDepositId = key d :=
    not_linked_of_find? hfind
  exact hi.linkMint ((existing_mint_iff hi.mints _ id _).mp hnone) hdeposit ha

theorem intact_matchWithdrawal (w : GnosisSafeWithdrawal) (safe : AuditedSafeConfig) :
    Program.Within (Keeps Intact) (AuditedBurn.tryMatchWithdrawalWithBurn w safe) := by
  refine intact_tryMatch (by intro e; cases e <;> rfl) (fun s => not_panics_matchWithdrawal w safe)
    fun s id b s' hi hnone hfind ha => ?_
  have hid : b.id = some (key b) := id_of_find? hfind
  rw [hid, unwrap_bind] at ha
  have hburn : ¬∃ a ∈ s.auditedBurns.rows, a.burnTxOutId = key b := not_linked_of_find? hfind
  exact hi.linkBurn hburn ((existing_burn_iff hi.burns _ id _).mp hnone) ha

theorem intact_matchBurn (b : BurnTxOut) (config : GnosisSafeConfig) :
    Program.Within (Keeps Intact) (AuditedBurn.tryMatchBurnWithWithdrawal b config) := by
  refine intact_tryMatch (by intro e; cases e <;> rfl) (fun s => not_panics_matchBurn b config)
    fun s id w s' hi hnone hfind ha => ?_
  have hid : w.id = some (key w) := id_of_find? hfind
  rw [hid, unwrap_bind] at ha
  have hwithdrawal : ¬∃ a ∈ s.auditedBurns.rows, a.gnosisSafeWithdrawalId = key w :=
    not_linked_of_find? hfind
  exact hi.linkBurn ((existing_burn_iff hi.burns _ id _).mp hnone) hwithdrawal ha

/-! ### Statements -/

theorem rows_of_insert {ρ : Type} [Record ρ] {t t' : Table ρ} {r : ρ} {n : ℕ}
    (h : t.insert r = .ok (n,t')) : t'.rows = t.rows ++ [Record.withId r n] :=
  ((Table.insert_eq_ok _ _ _ _).mp h).2.2

theorem prefix_of_insert {ρ : Type} [Record ρ] {t t' : Table ρ} {r : ρ} {n : ℕ}
    (h : t.insert r = .ok (n,t')) : t.rows <+: t'.rows := ⟨_,(rows_of_insert h).symm⟩

/-- A count, whichever counter it is of, keeps the references. -/
theorem intact_inc (c : Counter) : Program.Within (Keeps Intact) (Counters.inc c) := by
  intro s hi
  rcases Program.returns_or_fails_or_panics (Counters.inc c) s with ⟨u,hr⟩ | ⟨e,hf⟩ | hp
  · obtain ⟨row,-,hs⟩ := (Counters.returns_inc c s _ u).mp hr
    rw [hs]
    exact hi.of_eq rfl rfl rfl rfl rfl rfl rfl
  · obtain ⟨-,-,hs⟩ := (Counters.fails_inc c s _ e).mp hf
    rwa [hs]
  · exact (Counters.not_panics_inc c s hp).elim

theorem intact_insertDeposit (d : GnosisSafeDeposit) : Program.Within (Keeps Intact) d.insert :=
  leaves_insertUnsaved (P := fun s _ s' => Keeps Intact s s') _ d fun _ _ _ hins _ hi =>
    hi.grown List.prefix_rfl (prefix_of_insert hins) List.prefix_rfl List.prefix_rfl
      List.prefix_rfl (fun _ hw hnot => absurd hw hnot) rfl rfl

/-- The foreign key of a withdrawal says that its hash was recorded. -/
theorem intact_insertWithdrawal (w : GnosisSafeWithdrawal) :
    Program.Within (Keeps Intact) w.insert := by
  refine leaves_insertUnsaved (P := fun s _ s' => Keeps Intact s s') _ w fun s n t hins hfk hi =>
    hi.grown List.prefix_rfl List.prefix_rfl List.prefix_rfl (prefix_of_insert hins)
      List.prefix_rfl (fun x hx hnot => ?_) rfl rfl
  change x ∈ t.rows at hx
  rw [rows_of_insert hins] at hx
  obtain rfl := List.mem_singleton.mp ((List.mem_append.mp hx).resolve_left hnot)
  exact hfk

theorem intact_insertTx (serde : Serde) (tx : RawGnosisTransaction) :
    Program.Within (Keeps Intact) (GnosisSafeTx.insert serde tx) :=
  leaves_insertTx (P := fun s _ s' => Keeps Intact s s') serde tx fun _ _ hi =>
    hi.grown List.prefix_rfl List.prefix_rfl List.prefix_rfl List.prefix_rfl
      (List.prefix_append _ _) (fun _ hw hnot => absurd hw hnot) rfl rfl

theorem intact_insertConfigTx (ext : Externals) (idx : UInt64) (ts : Option DateTime)
    (tx : CoreMintConfigTx) :
    Program.Within (Keeps Intact) (MintConfigTx.insertFromCoreMintConfigTx ext idx ts tx) :=
  leaves_insertConfigTx (P := fun s _ s' => Keeps Intact s s') within_transaction ext idx ts tx
    (fun _ _ hi => hi.of_eq rfl rfl rfl rfl rfl rfl rfl)
    fun _ _ hi => hi.of_eq rfl rfl rfl rfl rfl rfl rfl

theorem intact_insertMint (m : MintTx) : Program.Within (Keeps Intact) m.insert :=
  leaves_insertUnsaved (P := fun s _ s' => Keeps Intact s s') _ m fun _ _ _ hins _ hi =>
    hi.grown (prefix_of_insert hins) List.prefix_rfl List.prefix_rfl List.prefix_rfl
      List.prefix_rfl (fun _ hw hnot => absurd hw hnot) rfl rfl

theorem intact_insertBurn (b : BurnTxOut) : Program.Within (Keeps Intact) b.insert :=
  leaves_insertUnsaved (P := fun s _ s' => Keeps Intact s s') _ b fun _ _ _ hins _ hi =>
    hi.grown List.prefix_rfl List.prefix_rfl (prefix_of_insert hins) List.prefix_rfl
      List.prefix_rfl (fun _ hw hnot => absurd hw hnot) rfl rfl

theorem intact_setBalances (idx : UInt64) (m : BalanceMap) :
    Program.Within (Keeps Intact) (BlockBalance.setBalancesForBlock idx m) :=
  leaves_setBalances (P := fun s _ s' => Keeps Intact s s') within_transaction idx m
    fun _ _ hi => hi.of_eq rfl rfl rfl rfl rfl rfl rfl

/-! ### Steps -/

theorem gnosisParts_intact (safe : AuditedSafeConfig) :
    GnosisParts (fun s (_ : List Counters) s' => Keeps Intact s s') safe where
  count c _ := intact_inc c
  deposit := intact_insertDeposit
  withdrawal := intact_insertWithdrawal
  matchDeposit d := intact_matchDeposit d safe
  matchWithdrawal w := intact_matchWithdrawal w safe

theorem ledgerParts_intact (ext : Externals) (b : BlockData) :
    LedgerParts (fun s (_ : List Counters) s' => Keeps Intact s s') ext b where
  configTx := intact_insertConfigTx ext _ _
  mint := intact_insertMint
  burn := intact_insertBurn
  count c _ := intact_inc c
  audited := Program.within_update fun _ hi => hi.of_eq rfl rfl rfl rfl rfl rfl rfl
  balances := intact_setBalances _

theorem auditParts_intact (config : GnosisSafeConfig) :
    AuditParts (fun s (_ : List Counters) s' => Keeps Intact s s') config where
  matchMint m := intact_matchMint m config
  matchBurn b := intact_matchBurn b config

theorem intact_processRawTransaction (safe : AuditedSafeConfig) (serde : Serde)
    (tx : RawGnosisTransaction) :
    Program.Within (Keeps Intact) (safe.processRawTransaction serde tx) := by
  rw [processRawTransaction_eq]
  exact Program.within_expect _ (Program.within_savepoint
    ((gnosisParts_intact safe).recordAndProcess (intact_insertTx serde tx)))

theorem intact_syncAndAudit (ext : Externals) (config : Option GnosisSafeConfig) (b : BlockData) :
    Program.Within (Keeps Intact) (syncAndAudit ext config b) :=
  Program.within_savepoint (Program.within_bind
    (within_transaction (ledgerParts_intact ext b).syncBlockStages)
    fun data => leaves_auditIfConfigured auditParts_intact data)

/-! ### Runs -/

theorem intact_initial : Intact initialDb where
  mints := by simp [MintRefs, initialDb_eq, Db.empty, Table.empty]
  burns := by simp [BurnRefs, initialDb_eq, Db.empty, Table.empty]
  once := by constructor <;> simp [initialDb_eq, Db.empty, Table.empty]
  withdrawals := by simp [initialDb_eq, Db.empty, Table.empty]

variable {ext : Externals} {serde : Serde}

theorem Scanned.intact {ι : Type} [DecidableEq ι] {c : ScanState ι} (h : Scanned ext serde c) :
    Intact c.db := by
  induction h with
  | start => exact intact_initial
  | step before next ih =>
    cases next with
    | read i => exact ih
    | sync i config b held => exact intact_syncAndAudit ext config b _ ih
    | crash i => rwa [newFromPath_state before.syncedTo.counters]
    | gnosis safe tx => exact intact_processRawTransaction safe serde tx _ ih

end ReserveAuditor
