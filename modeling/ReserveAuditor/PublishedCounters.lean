import ReserveAuditor.Lib.Published
import ReserveAuditor.MatchEffects
import ReserveAuditor.Parts

/-! What the auditor publishes: all counters, each time that one of them is increased. -/
namespace ReserveAuditor
open Txn Relational

variable {s s' : Db} {c : Counter}

/-! ### Transactions -/

@[simp] theorem publishes_transaction {α : Type} (f : Conn α) (s : Db) :
    (transaction f).Publishes s ↔ f.Publishes s := by
  obtain ⟨k,hrun,-⟩ := transaction_run f s
  simp [Program.Publishes, hrun]

/-- What returns at the first attempt is not tried again. -/
theorem transaction_of_ok {α : Type} {f : Conn α} {a : α} (h : (f s).outcome = .ok a) :
    transaction f s = f s := by
  obtain ⟨k,hrun,hk⟩ := transaction_run f s
  obtain rfl := hk (by rw [h]; rfl)
  rcases hf : f s with ⟨o,t,l⟩
  rw [hf] at h
  obtain rfl : o = .ok a := h
  simp [hrun, Program.savepoint, hf]

/-- Any other end puts the database back, after every attempt. -/
theorem transaction_rolledBack {α : Type} (f : Conn α) (h : ∀ a, (f s).outcome ≠ .ok a) :
    (transaction f s).state = s := by
  rw [transaction_state]
  exact (Program.savepoint_state f s).resolve_left fun ⟨a,ha,_⟩ => h a ha

/-! ### Statements -/

/-- Nothing is published, and the counters stay. -/
def Quiet (s : Db) (l : List Counters) (s' : Db) : Prop := l = [] ∧ s'.counters = s.counters

instance : IsTrace Quiet where
  nil _ := ⟨rfl,rfl⟩
  append h h' := ⟨by rw [h.1, h'.1]; rfl,h'.2.trans h.2⟩

theorem Quiet.told {l : List Counters} (h : Quiet s l s') : Told Db.counters s l s' := by
  intro row hrow
  rw [h.1, h.2, hrow]
  rfl

theorem Quiet.rises {l : List Counters} (h : Quiet s l s') : Rises Db.counters s l s' := by
  intro row hrow
  exact ⟨row,h.2.trans hrow,le_rfl,by simp [h.1],fun _ => rfl⟩

theorem not_publishes_of_quiet {α : Type} {x : Conn α} (h : Program.Leaves Quiet x) (s : Db) :
    ¬x.Publishes s := not_not_intro (h s).1

theorem quiet_transaction {α : Type} {x : Conn α} (h : Program.Leaves Quiet x) :
    Program.Leaves Quiet (transaction x) :=
  leaves_transaction h fun s _ => ⟨(h s).1,rfl⟩

theorem quiet_insertMint (m : MintTx) : Program.Leaves Quiet m.insert :=
  leaves_insertUnsaved _ m fun _ _ _ _ _ => ⟨rfl,rfl⟩

theorem quiet_insertBurn (b : BurnTxOut) : Program.Leaves Quiet b.insert :=
  leaves_insertUnsaved _ b fun _ _ _ _ _ => ⟨rfl,rfl⟩

theorem quiet_insertDeposit (d : GnosisSafeDeposit) : Program.Leaves Quiet d.insert :=
  leaves_insertUnsaved _ d fun _ _ _ _ _ => ⟨rfl,rfl⟩

theorem quiet_insertWithdrawal (w : GnosisSafeWithdrawal) : Program.Leaves Quiet w.insert :=
  leaves_insertUnsaved _ w fun _ _ _ _ _ => ⟨rfl,rfl⟩

theorem quiet_insertConfigTx (ext : Externals) (idx : UInt64) (ts : Option DateTime)
    (tx : CoreMintConfigTx) :
    Program.Leaves Quiet (MintConfigTx.insertFromCoreMintConfigTx ext idx ts tx) :=
  leaves_insertConfigTx quiet_transaction ext idx ts tx (fun _ _ => ⟨rfl,rfl⟩) fun _ _ => ⟨rfl,rfl⟩

theorem quiet_insertTx (serde : Serde) (tx : RawGnosisTransaction) :
    Program.Leaves Quiet (GnosisSafeTx.insert serde tx) :=
  leaves_insertTx serde tx fun _ _ => ⟨rfl,rfl⟩

theorem quiet_setAudited (r : BlockAuditData) : Program.Leaves Quiet r.set :=
  Program.leaves_update fun _ => ⟨rfl,rfl⟩

theorem quiet_setBalances (idx : UInt64) (m : BalanceMap) :
    Program.Leaves Quiet (BlockBalance.setBalancesForBlock idx m) :=
  leaves_setBalances quiet_transaction idx m fun _ _ => ⟨rfl,rfl⟩

theorem quiet_associateMint (depositId mintId : ℕ) :
    Program.Leaves Quiet (AuditedMint.associateDepositWithMint depositId mintId) :=
  Program.leaves_bind (leaves_insertInto _ fun _ _ _ _ _ => ⟨rfl,rfl⟩) fun _ => Program.leaves_pure _

theorem quiet_associateBurn (withdrawalId burnId : ℕ) :
    Program.Leaves Quiet (AuditedBurn.associateWithdrawalWithBurn withdrawalId burnId) :=
  Program.leaves_bind (leaves_insertInto _ fun _ _ _ _ _ => ⟨rfl,rfl⟩) fun _ => Program.leaves_pure _

theorem Counters.lt_bump (row : Counters) (c : Counter) : row < row.bump c := by
  refine lt_of_le_of_ne (fun d => ?_) fun h => ?_
  · by_cases hd : d = c
    · subst hd
      rw [Counters.bump_same]
      exact Nat.le_succ _
    · exact (Counters.bump_ne row hd).ge
  · have hc := congrFun h c
    rw [Counters.bump_same] at hc
    omega

@[simp] theorem publishes_inc (c : Counter) (s : Db) :
    (Counters.inc c).Publishes s ↔ s.counters.isSome = true := by
  simp only [Counters.inc, Program.publishes_bind, Program.not_publishes_query,
    Program.returns_query, false_or]
  cases hs : s.counters <;> simp

theorem told_inc (c : Counter) : Program.Leaves (Told Db.counters) (Counters.inc c) := by
  intro s row hrow
  simp [Counters.inc, Program.bind_run, Program.bind, Program.query, Program.update,
    Program.publish, hrow, Counters.get]

theorem rises_inc (c : Counter) : Program.Leaves (Rises Db.counters) (Counters.inc c) := by
  intro s row hrow
  refine ⟨row.bump c,?_,(Counters.lt_bump row c).le,?_,?_⟩ <;>
    simp [Counters.inc, Program.bind_run, Program.bind, Program.query, Program.update,
      Program.publish, hrow, Counters.get, Counters.lt_bump]

/-- A transaction of the auditor tells the counters exactly if it commits or has counted nothing. -/
theorem tells_transaction_iff {α : Type} {f : Conn α}
    (htold : Program.Leaves (Told Db.counters) f) (hrises : Program.Leaves (Rises Db.counters) f)
    (hc : s.counters.isSome = true) :
    (transaction f).Tells Db.counters s ↔ (∃ a s', f.Returns s a s') ∨ ¬f.Publishes s := by
  -- a transaction that commits tells what its body tells
  by_cases hok : ∃ a, (f s).outcome = .ok a
  · obtain ⟨a,ha⟩ := hok
    rw [Program.Tells, transaction_of_ok ha]
    exact iff_of_true (htold s) (Or.inl ⟨a,_,ha,rfl⟩)
  · have hnot : ∀ a, (f s).outcome ≠ .ok a := fun a ha => hok ⟨a,ha⟩
    -- one that is rolled back is told only if nothing was published
    have hback : Rises Db.counters s (transaction f s).log s := by
      have h := leaves_transaction hrises (fun s _ => (hrises s).back) s
      rwa [transaction_rolledBack f hnot] at h
    have hnone : ¬∃ a s', f.Returns s a s' := by
      rintro ⟨a,_,ha,-⟩
      exact hnot a ha
    rw [Program.Tells, transaction_rolledBack f hnot, hback.told_back_iff hc, or_iff_right hnone,
      ← publishes_transaction, Program.Publishes, not_not]

theorem rises_transaction {α : Type} {f : Conn α} (h : Program.Leaves (Rises Db.counters) f) :
    Program.Leaves (Rises Db.counters) (transaction f) :=
  leaves_transaction h fun s _ => (h s).back

/-! ### Matching -/

/-- The call matches and publishes nothing, or it counts its error last. -/
structure CountsLast {α : Type} (x : Conn α) : Prop where
  rises : Program.Leaves (Rises Db.counters) x
  told : Program.Leaves (Told Db.counters) x
  publishes_iff : ∀ s, s.counters.isSome = true → (x.Publishes s ↔ ¬∃ a s', x.Returns s a s')

section tryMatch
variable {β : Type} {objectId : Option ℕ} {precheck : Except Error Unit}
  {existing : ℕ → Db → Option String} {onExisting : Conn Unit} {find : Db → Option β}
  {check : β → Except Error Unit} {associate : ℕ → β → Conn Unit} {countError : Error → Counter}

theorem rises_tryMatch (hexisting : Program.Leaves (Rises Db.counters) onExisting)
    (hassociate : ∀ id b, Program.Leaves Quiet (associate id b)) :
    Program.Leaves (Rises Db.counters)
      (tryMatch objectId precheck existing onExisting find check associate countError) :=
  leaves_tryMatch rises_transaction hexisting (fun id b s => (hassociate id b s).rises)
    fun _ => rises_inc _

/-- A failed call counts last. -/
theorem tells_of_fails_tryMatch {s' : Db} {e : Error} (hc : s.counters.isSome = true)
    (h : (tryMatch objectId precheck existing onExisting find check associate countError).Fails
      s e s') :
    (tryMatch objectId precheck existing onExisting find check associate countError).Publishes s ∧
    (tryMatch objectId precheck existing onExisting find check associate countError).Tells
      Db.counters s := by
  have hcount := fails_tryMatch_inc h
  rw [tryMatch, Program.fails_bind] at h
  simp only [Program.fails_attempt, false_or] at h
  obtain ⟨r,t,hr,h⟩ := h
  cases r with
  | ok b => simp at h
  | error e' =>
    -- a search that was rolled back keeps the row of counters
    have ht : t.counters.isSome = true := by
      rcases hcount with ⟨hnone,-⟩ | hinc
      · simp [hnone] at hc
      · obtain ⟨row,-,hrow⟩ := (Counters.returns_inc _ _ _ _).mp hinc
        simp only [Program.fails_bind, Counters.fails_inc, Program.fails_fail] at h
        rcases h with ⟨hnone,-,rfl⟩ | ⟨_,_,hinc',-,rfl⟩
        · rw [hrow] at hnone
          simp at hnone
        · obtain ⟨row',hrow',-⟩ := (Counters.returns_inc _ _ _ _).mp hinc'
          rw [hrow']
          rfl
    -- the last thing it does is to count the failure
    have hlast : (do
        Counters.inc (countError e')
        Program.fail e' : Conn β).Publishes t :=
      (Program.publishes_bind _ _ _).mpr (Or.inl ((publishes_inc _ t).mpr ht))
    exact ⟨(Program.publishes_bind _ _ _).mpr (Or.inr ⟨_,t,hr,hlast⟩),tells_bind_last hr
      (Program.leaves_bind (told_inc _) fun _ => Program.leaves_fail e') ht hlast⟩

/-- A call that matches publishes nothing. -/
theorem not_publishes_of_returns_tryMatch {b : β} {s' : Db}
    (hassociate : ∀ id b, Program.Leaves Quiet (associate id b))
    (h : (tryMatch objectId precheck existing onExisting find check associate countError).Returns
      s b s') :
    ¬(tryMatch objectId precheck existing onExisting find check associate
      countError).Publishes s := by
  obtain ⟨id,hid,hp,hex,-,-,-⟩ := (returns_tryMatch s s' b).mp h
  rw [tryMatch, Program.publishes_bind, Program.publishes_attempt]
  rintro (hbody | ⟨r,t,hr,hpublish⟩)
  -- inside the transaction only `onExisting` counts, and it did not run
  · simp only [Program.publishes_bind, Program.not_publishes_ofOutcome, Program.returns_ofOutcome,
      Outcome.okOr_eq_ok, Program.not_publishes_ofExcept, Program.returns_ofExcept,
      publishes_transaction, Program.not_publishes_query, Program.returns_query, false_or] at hbody
    obtain ⟨id',s₁,⟨hid',h₁⟩,_,s₂,⟨-,h₂⟩,found,s₃,⟨hfound,h₃⟩,hpublish⟩ := hbody
    obtain rfl : id = id' := Option.some.inj (hid.symm.trans hid')
    subst s₁ s₂ s₃
    simp only [hfound, hex, Program.publishes_bind, Program.not_publishes_query,
      Program.not_publishes_ofOutcome, Program.not_publishes_ofExcept, Program.not_publishes_pure,
      and_false, exists_false, or_false, false_or] at hpublish
    obtain ⟨_,_,-,other,_,-,_,t,-,ha⟩ := hpublish
    exact ha (hassociate id other t).1
  · rw [tryMatch, Program.returns_bind] at h
    obtain ⟨r',t',hr',hb⟩ := h
    obtain ⟨rfl,rfl⟩ := hr.unique hr'
    -- outside of it only a failure is counted
    cases r with
    | ok b' => simp at hpublish
    | error e => simp at hb

/-- A call publishes exactly if it does not match. -/
theorem publishes_tryMatch_iff (hassociate : ∀ id b, Program.Leaves Quiet (associate id b))
    (hpanic : ¬(tryMatch objectId precheck existing onExisting find check associate
      countError).Panics s) (hc : s.counters.isSome = true) :
    (tryMatch objectId precheck existing onExisting find check associate countError).Publishes s ↔
      ¬∃ b s', (tryMatch objectId precheck existing onExisting find check associate
        countError).Returns s b s' := by
  constructor
  · rintro h ⟨b,s',hr⟩
    exact not_publishes_of_returns_tryMatch hassociate hr h
  · intro hnot
    rcases Program.returns_or_fails_or_panics (tryMatch objectId precheck existing onExisting find
      check associate countError) s with ⟨b,hr⟩ | ⟨e,hf⟩ | hp
    · exact absurd ⟨b,_,hr⟩ hnot
    · exact (tells_of_fails_tryMatch hc hf).1
    · exact absurd hp hpanic

theorem told_tryMatch (hexisting : Program.Leaves (Rises Db.counters) onExisting)
    (hassociate : ∀ id b, Program.Leaves Quiet (associate id b))
    (hpanic : ∀ s, ¬(tryMatch objectId precheck existing onExisting find check associate
      countError).Panics s) :
    Program.Leaves (Told Db.counters)
      (tryMatch objectId precheck existing onExisting find check associate countError) := by
  intro s row hrow
  rcases Program.returns_or_fails_or_panics (tryMatch objectId precheck existing onExisting find
    check associate countError) s with ⟨b,hr⟩ | ⟨e,hf⟩ | hp
  · have hnil := not_not.mp (not_publishes_of_returns_tryMatch hassociate hr)
    obtain ⟨row',hrow',-,-,heq⟩ := rises_tryMatch hexisting hassociate s row hrow
    rw [hrow', heq hnil, hnil]
    rfl
  · exact (tells_of_fails_tryMatch (Option.isSome_of_eq_some hrow) hf).2 row hrow
  · exact absurd hp (hpanic s)

theorem countsLast_tryMatch (hexisting : Program.Leaves (Rises Db.counters) onExisting)
    (hassociate : ∀ id b, Program.Leaves Quiet (associate id b))
    (hpanic : ∀ s, ¬(tryMatch objectId precheck existing onExisting find check associate
      countError).Panics s) :
    CountsLast (tryMatch objectId precheck existing onExisting find check associate countError) where
  rises := rises_tryMatch hexisting hassociate
  told := told_tryMatch hexisting hassociate hpanic
  publishes_iff s hc := publishes_tryMatch_iff hassociate (hpanic s) hc

end tryMatch

theorem countsLast_matchDeposit (d : GnosisSafeDeposit) (safe : AuditedSafeConfig) :
    CountsLast (AuditedMint.tryMatchDepositWithMint d safe) :=
  countsLast_tryMatch (rises_inc _) (fun _ _ => Program.leaves_bind (Program.leaves_ofOutcome _)
    fun _ => quiet_associateMint _ _) fun _ => not_panics_matchDeposit d safe

theorem countsLast_matchMint (m : MintTx) (config : GnosisSafeConfig) :
    CountsLast (AuditedMint.tryMatchMintWithDeposit m config) :=
  countsLast_tryMatch (Program.leaves_pure ()) (fun _ _ => Program.leaves_bind
    (Program.leaves_ofOutcome _) fun _ => quiet_associateMint _ _)
    fun _ => not_panics_matchMint m config

theorem countsLast_matchWithdrawal (w : GnosisSafeWithdrawal) (safe : AuditedSafeConfig) :
    CountsLast (AuditedBurn.tryMatchWithdrawalWithBurn w safe) :=
  countsLast_tryMatch (Program.leaves_pure ()) (fun _ _ => Program.leaves_bind
    (Program.leaves_ofOutcome _) fun _ => quiet_associateBurn _ _)
    fun _ => not_panics_matchWithdrawal w safe

theorem countsLast_matchBurn (b : BurnTxOut) (config : GnosisSafeConfig) :
    CountsLast (AuditedBurn.tryMatchBurnWithWithdrawal b config) :=
  countsLast_tryMatch (Program.leaves_pure ()) (fun _ _ => Program.leaves_bind
    (Program.leaves_ofOutcome _) fun _ => quiet_associateBurn _ _)
    fun _ => not_panics_matchBurn b config

/-! ### Steps -/

section parts
variable {P : Db → List Counters → Db → Prop}
  (hquiet : ∀ {α : Type} {x : Conn α}, Program.Leaves Quiet x → Program.Leaves P x)
  (hinc : ∀ c, Program.Leaves P (Counters.inc c))
  (hmatch : ∀ {β : Type} {x : Conn β}, CountsLast x → Program.Leaves P x)
include hquiet hinc

theorem ledgerParts_of_quiet (ext : Externals) (b : BlockData) : LedgerParts P ext b where
  configTx tx := hquiet (quiet_insertConfigTx ext _ _ tx)
  mint m := hquiet (quiet_insertMint m)
  burn burn := hquiet (quiet_insertBurn burn)
  count c _ := hinc c
  audited := hquiet (quiet_setAudited _)
  balances m := hquiet (quiet_setBalances _ m)

include hmatch

theorem gnosisParts_of_quiet (safe : AuditedSafeConfig) : GnosisParts P safe where
  count c _ := hinc c
  deposit d := hquiet (quiet_insertDeposit d)
  withdrawal w := hquiet (quiet_insertWithdrawal w)
  matchDeposit d := hmatch (countsLast_matchDeposit d safe)
  matchWithdrawal w := hmatch (countsLast_matchWithdrawal w safe)

omit hquiet hinc in
theorem auditParts_of_countsLast (config : GnosisSafeConfig) : AuditParts P config where
  matchMint m := hmatch (countsLast_matchMint m config)
  matchBurn b := hmatch (countsLast_matchBurn b config)

end parts

variable {ext : Externals} {serde : Serde} {safe : AuditedSafeConfig}

theorem Quiet.leaves_told {α : Type} {x : Conn α} (h : Program.Leaves Quiet x) :
    Program.Leaves (Told Db.counters) x := fun s => (h s).told

theorem Quiet.leaves_rises {α : Type} {x : Conn α} (h : Program.Leaves Quiet x) :
    Program.Leaves (Rises Db.counters) x := fun s => (h s).rises

theorem told_syncBlockStages (b : BlockData) :
    Program.Leaves (Told Db.counters) (syncBlockStages ext b) :=
  (ledgerParts_of_quiet Quiet.leaves_told told_inc ext b).syncBlockStages

theorem rises_syncBlockStages (b : BlockData) :
    Program.Leaves (Rises Db.counters) (syncBlockStages ext b) :=
  (ledgerParts_of_quiet Quiet.leaves_rises rises_inc ext b).syncBlockStages

theorem rises_syncBlock (b : BlockData) : Program.Leaves (Rises Db.counters)
    (syncBlockWithConn ext b.block b.contents b.timestamp) :=
  rises_transaction (rises_syncBlockStages b)

/-- A sync tells the counters exactly if the block is accepted, or nothing was counted. -/
theorem tells_syncBlock_iff (b : BlockData) (hc : s.counters.isSome = true) :
    (syncBlockWithConn ext b.block b.contents b.timestamp).Tells Db.counters s ↔
      (∃ data s', (syncBlockWithConn ext b.block b.contents b.timestamp).Returns s data s') ∨
      ¬(syncBlockWithConn ext b.block b.contents b.timestamp).Publishes s := by
  simp only [syncBlockWithConn_eq, returns_transaction, publishes_transaction]
  exact tells_transaction_iff (told_syncBlockStages b) (rises_syncBlockStages b) hc

theorem isOk_iff_returns {x : Conn Unit} (s : Db) :
    (x s).outcome.isOk = true ↔ ∃ s', x.Returns s () s' := by
  constructor
  · exact fun h => ⟨_,Program.returns_of_isOk h⟩
  · rintro ⟨s',h⟩
    exact (Outcome.isOk_iff _).mpr ⟨(),h.1⟩

/-- The audit after the sync commits with it. -/
theorem tells_syncAndAudit_iff (config : Option GnosisSafeConfig) (b : BlockData)
    (hc : s.counters.isSome = true) : (syncAndAudit ext config b).Tells Db.counters s ↔
      (syncBlockWithConn ext b.block b.contents b.timestamp).Tells Db.counters s := by
  let x := syncBlockWithConn ext b.block b.contents b.timestamp
  -- the counters never fall, neither in the sync nor in the audit
  have hrises : Program.Leaves (Rises Db.counters) (x >>= auditIfConfigured config) :=
    Program.leaves_bind (rises_syncBlock b) fun data =>
      leaves_auditIfConfigured (fun config => auditParts_of_countsLast CountsLast.rises config) data
  have htold (h : ((x >>= auditIfConfigured config) s).outcome.isOk = true) :
      (x >>= auditIfConfigured config).Tells Db.counters s := by
    obtain ⟨s',h⟩ := (isOk_iff_returns s).mp h
    obtain ⟨data,s₁,hsync,-⟩ := (Program.returns_bind _ _ _ _ _).mp h
    have haudit : Program.Leaves (Told Db.counters) (auditIfConfigured config data) :=
      leaves_auditIfConfigured (fun config => auditParts_of_countsLast CountsLast.told config) data
    have hfirst : x.Tells Db.counters s := (tells_syncBlock_iff b hc).mpr (Or.inl ⟨data,s₁,hsync⟩)
    simp only [Program.Tells, Program.bind_run, Program.bind, hsync.1]
    exact IsTrace.append hfirst (haudit _)
  -- the audit never fails, so the whole commits when the sync returns
  have hok : (∃ s', (x >>= auditIfConfigured config).Returns s () s') ↔
      ∃ data s', x.Returns s data s' := by
    simpa only [syncAndAudit, returns_exclusiveTransaction] using syncAndAudit_returns_iff ext config b s
  rw [tells_syncBlock_iff b hc]
  refine (tells_savepoint_iff htold (hrises s) hc).trans ?_
  rw [isOk_iff_returns, hok, Program.publishes_bind]
  refine or_congr_right' fun hnot => not_congr (or_iff_left ?_)
  rintro ⟨data,s₁,hsync,-⟩
  exact hnot ⟨data,s₁,hsync⟩

/-- A raw transaction is kept, or it panics and is put back. -/
theorem tells_processRawTransaction_iff (tx : RawGnosisTransaction)
    (hc : s.counters.isSome = true) :
    (safe.processRawTransaction serde tx).Tells Db.counters s ↔
      (∃ s', (safe.processRawTransaction serde tx).Returns s () s') ∨
      ¬(safe.processRawTransaction serde tx).Publishes s := by
  have htold := (gnosisParts_of_quiet Quiet.leaves_told told_inc CountsLast.told safe).recordAndProcess
    (Quiet.leaves_told (quiet_insertTx serde tx))
  have hrises := (gnosisParts_of_quiet Quiet.leaves_rises rises_inc CountsLast.rises
    safe).recordAndProcess (Quiet.leaves_rises (quiet_insertTx serde tx))
  have h := tells_savepoint_iff (fun _ => htold s) (hrises s) hc
  rw [isOk_iff_returns] at h
  simp only [Program.Tells, processRawTransaction_eq, Program.returns_expect,
    Program.publishes_expect, Program.returns_savepoint, exclusiveTransaction,
    Program.publishes_savepoint, Program.expect_state, Program.expect_log] at h ⊢
  exact h

end ReserveAuditor
