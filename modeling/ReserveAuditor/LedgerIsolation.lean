import ReserveAuditor.Totality
import ReserveAuditor.LedgerRun
import ReserveAuditor.Parts

/-! Syncing a block reads nothing that the Gnosis threads and the audit write, so what they do
cannot be seen in the accounts of the ledger. -/
namespace ReserveAuditor
open Txn Relational

/-! ### Databases with the same ledger -/

theorem Counters.SameLedger.symm {c c' : Option Counters} (h : Counters.SameLedger c c') :
    Counters.SameLedger c' c := fun k hk => (h k hk).symm

theorem LedgerKept.refl (s : Db) : LedgerKept s s := ⟨rfl,rfl,rfl,rfl,rfl,rfl,.refl _⟩

theorem LedgerKept.symm {s s' : Db} (h : LedgerKept s s') : LedgerKept s' s where
  blockAuditData := h.blockAuditData.symm
  blockBalance := h.blockBalance.symm
  mintConfigTxs := h.mintConfigTxs.symm
  mintConfigs := h.mintConfigs.symm
  mintTxs := h.mintTxs.symm
  burnTxOuts := h.burnTxOuts.symm
  counters := h.counters.symm

variable {ext : Externals} {serde : Serde} {s s' t t' : Db}

theorem LedgerKept.lookupMintConfig (h : LedgerKept s t) (idx : UInt64) (tx : CoreMintTx) :
    ReserveAuditor.lookupMintConfig ext idx tx s = ReserveAuditor.lookupMintConfig ext idx tx t := by
  have htotal (owner : MintConfig → MintConfigTx → Bool) :
      totalMintedBeforeBlock owner idx s = totalMintedBeforeBlock owner idx t := by
    have hjoin : mintWithConfig s = mintWithConfig t := by
      funext m
      simp only [mintWithConfig, h.mintConfigs, h.mintConfigTxs]
    simp only [totalMintedBeforeBlock, mintsWithConfig, hjoin, h.mintTxs]
  simp only [ReserveAuditor.lookupMintConfig, MintConfigTx.mostRecentForToken,
    MintConfigTx.getTotalMintedBeforeBlock, MintConfig.getByMintConfigTxId, htotal,
    findMintConfig_congr ext tx htotal, h.mintConfigs, h.mintConfigTxs]

theorem respects_inc {c : Counter} (hc : c.ofLedger = true) :
    Program.Respects LedgerKept (Counters.inc c) := by
  intro s t h
  have hcount := h.counters
  have hsome := hcount c hc
  simp only [Counters.inc, Program.bind_run, Program.bind, Program.query]
  cases hs : s.counters with
  | none =>
    cases ht : t.counters with
    | none => exact ⟨rfl,h⟩
    | some row => simp [hs, ht] at hsome
  | some row =>
    cases ht : t.counters with
    | none => simp [hs, ht] at hsome
    | some row' =>
      refine ⟨rfl,h.blockAuditData,h.blockBalance,h.mintConfigTxs,h.mintConfigs,h.mintTxs,
        h.burnTxOuts,fun k hk => ?_⟩
      -- the rows agree on the counters of the ledger, before the increment and so after it
      have hrow : row' k = row k := by simpa [hs, ht] using hcount k hk
      change some (row'.bump c k) = some (row.bump c k)
      simp only [Counters.bump, Function.update_apply, hrow]
      split
      · rename_i he
        rw [← he, hrow]
      · rfl

/-- A statement on a table that both databases have. -/
theorem respects_insertInto {R : Db → Db → Prop} {ρ : Type} [Record ρ] {get : Db → Table ρ}
    {set : Db → Table ρ → Db} {fk : Db → ρ → Bool} (r : ρ) (hget : ∀ s t, R s t → get s = get t)
    (hset : ∀ s t u, R s t → R (set s u) (set t u)) (hfk : ∀ s t, R s t → fk s r = fk t r) :
    Program.Respects R (insertInto get set fk r) := by
  refine Program.respects_tryUpdate fun s t h => ?_
  rw [← hget s t h, ← hfk s t h]
  cases (get s).insert r with
  | error e => exact Or.inl ⟨_,rfl,rfl⟩
  | ok p =>
    cases fk s r with
    | false => exact Or.inl ⟨_,rfl,rfl⟩
    | true => exact Or.inr ⟨_,_,_,rfl,rfl,hset s t p.2 h⟩

theorem respects_insertUnsaved {R : Db → Db → Prop} {ρ : Type} [Record ρ] (what : String)
    {get : Db → Table ρ} {set : Db → Table ρ → Db} {fk : Db → ρ → Bool} (r : ρ)
    (hget : ∀ s t, R s t → get s = get t) (hset : ∀ s t u, R s t → R (set s u) (set t u))
    (hfk : ∀ s t, R s t → fk s r = fk t r) :
    Program.Respects R (insertUnsaved what get set fk r) := by
  unfold insertUnsaved
  split
  · exact Program.respects_fail _
  · exact Program.respects_bind (respects_insertInto r hget hset hfk) fun _ =>
      Program.respects_pure _

/-! ### Syncing a block -/

theorem respects_insertConfigTx (idx : UInt64) (ts : Option DateTime) (tx : CoreMintConfigTx) :
    Program.Respects LedgerKept (MintConfigTx.insertFromCoreMintConfigTx ext idx ts tx) := by
  -- configs are stored in a table that both databases share
  have hconfig (id : ℕ) (c : CoreMintConfig) :
      Program.Respects LedgerKept (MintConfig.insertFromCoreMintConfig ext id c) :=
    Program.respects_bind (respects_insertInto _ (fun _ _ h => h.mintConfigs.symm)
      (fun _ _ _ h => ⟨h.blockAuditData,h.blockBalance,h.mintConfigTxs,rfl,h.mintTxs,h.burnTxOuts,
        h.counters⟩)
      (fun _ _ h => by rw [h.mintConfigTxs])) fun _ => Program.respects_pure _
  refine Program.respects_bind (Program.respects_ofOutcome _) fun core =>
    Program.respects_bind (respects_transaction ?_) fun _ => Program.respects_pure _
  refine Program.respects_bind (respects_insertInto _ (fun _ _ h => h.mintConfigTxs.symm)
    (fun _ _ _ h => ⟨h.blockAuditData,h.blockBalance,rfl,h.mintConfigs,h.mintTxs,h.burnTxOuts,
      h.counters⟩)
    (fun _ _ _ => rfl)) fun id => ?_
  refine Program.respects_bind (Program.respects_forEach (fun c => ?_) _) fun _ =>
    Program.respects_pure _
  exact Program.respects_bind (hconfig id c) fun _ => Program.respects_pure _

theorem respects_processMint (idx : UInt64) (ts : Option DateTime) (m : BalanceMap)
    (tx : CoreMintTx) : Program.Respects LedgerKept (processMint ext idx ts m tx) := by
  refine Program.respects_bind (Program.respects_query fun _ _ h => h.lookupMintConfig idx tx)
    fun found => Program.respects_bind (Program.respects_ofOutcome _) fun cfg =>
    Program.respects_bind (Program.respects_when (respects_inc rfl)) fun _ =>
    Program.respects_bind ?_ fun _ => Program.respects_pure _
  refine Program.respects_bind (Program.respects_ofOutcome _) fun row => ?_
  exact respects_insertUnsaved _ _ (fun _ _ h => h.mintTxs.symm)
    (fun _ _ _ h => ⟨h.blockAuditData,h.blockBalance,h.mintConfigTxs,h.mintConfigs,rfl,h.burnTxOuts,
      h.counters⟩)
    (fun _ _ h => by rw [h.mintConfigs])

theorem respects_processBurn (m : BalanceMap) (burn : BurnTxOut) :
    Program.Respects LedgerKept (processBurn m burn) := by
  refine Program.respects_bind (Program.respects_when (respects_inc rfl)) fun _ =>
    Program.respects_bind ?_ fun _ => Program.respects_pure _
  exact respects_insertUnsaved _ _ (fun _ _ h => h.burnTxOuts.symm)
    (fun _ _ _ h => ⟨h.blockAuditData,h.blockBalance,h.mintConfigTxs,h.mintConfigs,h.mintTxs,rfl,
      h.counters⟩)
    (fun _ _ _ => rfl)

theorem respects_insertBalance (r : BlockBalance) :
    Program.Respects LedgerKept (BlockBalance.insert r) := by
  refine Program.respects_tryUpdate fun s t h => ?_
  rw [h.blockBalance, h.blockAuditData]
  split
  · exact Or.inl ⟨_,rfl,rfl⟩
  · split
    · exact Or.inr ⟨_,_,_,rfl,rfl,rfl,rfl,h.mintConfigTxs,h.mintConfigs,h.mintTxs,
        h.burnTxOuts,h.counters⟩
    · exact Or.inl ⟨_,rfl,rfl⟩

/-- From databases with the same ledger, a block is synced to databases with the same ledger, and
the same data is returned; or it is refused by both with the same error. -/
theorem respects_syncBlockWithConn (b : BlockData) : Program.Respects LedgerKept
    (syncBlockWithConn ext b.block b.contents b.timestamp) := by
  refine respects_transaction ?_
  refine Program.respects_bind (Program.respects_query fun _ _ h => (h.counters.get rfl).symm)
    fun _ => Program.respects_bind (Program.respects_when (Program.respects_fail _)) fun _ => ?_
  refine Program.respects_bind (Program.respects_forEach (fun tx => ?_) _) fun _ => ?_
  · exact Program.respects_bind (respects_insertConfigTx _ _ tx) fun _ => Program.respects_pure _
  refine Program.respects_bind (Program.respects_query fun s t h => ?_) fun m =>
    Program.respects_bind (Program.respects_accumEach (respects_processMint _ _) _ m) fun mints =>
    Program.respects_bind (Program.respects_accumEach respects_processBurn _ _) fun burns =>
    Program.respects_bind (respects_inc rfl) fun _ => ?_
  -- the balances of the previous block are read from shared rows
  · simp only [previousBalances, BlockBalance.getBalancesForBlock, h.blockBalance]
  refine Program.respects_bind (Program.respects_update fun s t h => ?_) fun _ => ?_
  · exact ⟨by rw [h.blockAuditData],h.blockBalance,h.mintConfigTxs,h.mintConfigs,h.mintTxs,
      h.burnTxOuts,h.counters⟩
  refine Program.respects_bind ?_ fun _ => Program.respects_pure _
  exact respects_transaction (Program.respects_forEach (fun e => respects_insertBalance _) _)

/-! ### Audits and Gnosis transactions -/

section tryMatch
variable {β : Type} {objectId : Option ℕ} {precheck : Except Error Unit}
  {existing : ℕ → Db → Option String} {onExisting : Conn Unit} {find : Db → Option β}
  {check : β → Except Error Unit} {associate : ℕ → β → Conn Unit} {countError : Error → Counter}

theorem CountFrame.ledgerKept (h : CountFrame s s') : LedgerKept s s' := by
  obtain ⟨c,hc,rfl⟩ := h
  exact ⟨rfl,rfl,rfl,rfl,rfl,rfl,hc⟩

theorem ledgerKept_tryMatch {r : Except Error β} (hcount : ∀ e, (countError e).ofLedger = false)
    (hassociate : ∀ id b s s', (associate id b).Returns s () s' → LedgerKept s s')
    (h : (tryMatch objectId precheck existing onExisting find check associate
      countError).attempt.Returns s r s') : LedgerKept s s' := by
  cases r with
  | ok b =>
    obtain ⟨id,-,-,-,-,-,ha⟩ :=
      (returns_tryMatch s s' b).mp ((Program.returns_attempt_ok _ s s' b).mp h)
    exact hassociate id b s s' ha
  | error e =>
    exact (fails_tryMatch hcount ((Program.returns_attempt_error _ s s' e).mp h)).ledgerKept

end tryMatch

theorem ledgerKept_matchMint {m : MintTx} {config : GnosisSafeConfig}
    {r : Except Error GnosisSafeDeposit}
    (h : (AuditedMint.tryMatchMintWithDeposit m config).attempt.Returns s r s') :
    LedgerKept s s' := by
  refine ledgerKept_tryMatch (by intro e; cases e <;> rfl) (fun id d s s' ha => ?_) h
  simp only [AuditedMint.associateDepositWithMint, Program.returns_bind, Program.returns_ofOutcome,
    returns_insertInto, Program.returns_pure] at ha
  obtain ⟨_,s₁,⟨-,h₁⟩,_,_,⟨u,-,-,rfl⟩,-,rfl⟩ := ha
  subst s₁
  exact ⟨rfl,rfl,rfl,rfl,rfl,rfl,.refl _⟩

theorem ledgerKept_matchBurn {b : BurnTxOut} {config : GnosisSafeConfig}
    {r : Except Error GnosisSafeWithdrawal}
    (h : (AuditedBurn.tryMatchBurnWithWithdrawal b config).attempt.Returns s r s') :
    LedgerKept s s' := by
  refine ledgerKept_tryMatch (by intro e; cases e <;> rfl) (fun id w s s' ha => ?_) h
  simp only [AuditedBurn.associateWithdrawalWithBurn, Program.returns_bind,
    Program.returns_ofOutcome, returns_insertInto, Program.returns_pure] at ha
  obtain ⟨_,s₁,⟨-,h₁⟩,_,_,⟨u,-,-,rfl⟩,-,rfl⟩ := ha
  subst s₁
  exact ⟨rfl,rfl,rfl,rfl,rfl,rfl,.refl _⟩

theorem ledgerKept_attempts {α β : Type} {f : α → Conn β} (as : List α)
    (hf : ∀ a s r s', (f a).attempt.Returns s r s' → LedgerKept s s')
    (h : (Program.forEach as fun a => do
      let _ ← Program.attempt (f a)
      pure ()).Returns s () s') : LedgerKept s s' := by
  induction as generalizing s with
  | nil =>
    rw [(Program.returns_forEach_nil _ s s' ()).mp h]
    exact .refl s
  | cons a as ih =>
    obtain ⟨s₁,hone,hrest⟩ := (Program.returns_forEach_cons _ _ _ s s' ()).mp h
    simp only [Program.returns_bind, Program.returns_pure] at hone
    obtain ⟨r,_,hr,-,rfl⟩ := hone
    exact (hf a s r _ hr).trans (ih hrest)

theorem ledgerKept_audit {config : Option GnosisSafeConfig} {data : SyncBlockData}
    (h : (auditIfConfigured config data).Returns s () s') : LedgerKept s s' := by
  cases config with
  | none =>
    rw [((Program.returns_pure _ _ _ _).mp h).2]
    exact .refl s
  | some config =>
    simp only [auditIfConfigured, auditBlockData, Program.returns_bind] at h
    obtain ⟨_,s₁,hmints,hburns⟩ := h
    exact (ledgerKept_attempts _ (fun _ _ _ _ => ledgerKept_matchMint) hmints).trans
      (ledgerKept_attempts _ (fun _ _ _ _ => ledgerKept_matchBurn) hburns)

theorem ledgerKept_processRawTransaction {safe : AuditedSafeConfig} {tx : RawGnosisTransaction}
    (h : (safe.processRawTransaction serde tx).Returns s () s') : LedgerKept s s' := by
  obtain ⟨hash,-,⟨-,rfl⟩ | ⟨-,decoded,-,hp⟩⟩ := returns_processRawTransaction h
  · exact .refl s'
  · have hrecord : LedgerKept s (recordHash serde tx hash s) := ⟨rfl,rfl,rfl,rfl,rfl,rfl,.refl _⟩
    exact hrecord.trans hp.rowsAdded.ledger

/-! ### Runs of the auditor -/

/-- A transaction of the ledger loop, or of the thread of any safe. -/
inductive Activity where
  | ledger (b : BlockData)
  | gnosis (safe : AuditedSafeConfig) (tx : RawGnosisTransaction)

namespace Activity

def program (ext : Externals) (serde : Serde) (config : Option GnosisSafeConfig) :
    Activity → Conn Unit
  | ledger b => syncAndAudit ext config b
  | gnosis safe tx => safe.processRawTransaction serde tx

def block? : Activity → Option BlockData
  | ledger b => some b
  | gnosis _ _ => none

/-- The database after the activities, of which those that end in an error or a panic leave it as
it was, and the blocks that were synced. This includes panics that leave their transactions open,
after which no other activity could begin one (`NoneLeftOpen`). -/
def run (ext : Externals) (serde : Serde) (config : Option GnosisSafeConfig) :
    List Activity → Db × List BlockData :=
  List.foldl (fun p a =>
    let r := a.program ext serde config p.1
    (r.state,p.2 ++ if r.outcome.isOk then a.block?.toList else [])) (initialDb,[])

end Activity

theorem Activity.run_concat (ext : Externals) (serde : Serde) (config : Option GnosisSafeConfig)
    (as : List Activity) (a : Activity) : run ext serde config (as ++ [a]) =
      ((a.program ext serde config (run ext serde config as).1).state,
        (run ext serde config as).2 ++
          if (a.program ext serde config (run ext serde config as).1).outcome.isOk then
            a.block?.toList else []) := by
  rw [run, List.foldl_append]
  rfl

/-- A transaction commits, or it leaves the database as it was. -/
theorem activity_cases (ext : Externals) (serde : Serde) (config : Option GnosisSafeConfig)
    (a : Activity) (s : Db) :
    (a.program ext serde config).Returns s () (a.program ext serde config s).state ∨
      (a.program ext serde config s).outcome.isOk = false ∧
        (a.program ext serde config s).state = s := by
  cases hok : (a.program ext serde config s).outcome.isOk with
  | true => exact Or.inl (Program.returns_of_isOk hok)
  | false =>
    refine Or.inr ⟨rfl,?_⟩
    -- what does not return is no success
    have hnot (h : (a.program ext serde config).Returns s ()
        (a.program ext serde config s).state) : False := by
      rw [h.1] at hok
      simp [Outcome.isOk] at hok
    cases a with
    | ledger b =>
      rcases Program.savepoint_state (do
        let data ← syncBlockWithConn ext b.block b.contents b.timestamp
        auditIfConfigured config data) s with ⟨_,h⟩ | h
      · exact (hnot ((returns_exclusiveTransaction _ _ _ _).mpr h)).elim
      · exact h
    | gnosis safe tx =>
      simp only [Activity.program, AuditedSafeConfig.processRawTransaction, Program.expect_state,
        Program.returns_expect, returns_exclusiveTransaction] at hnot ⊢
      rcases Program.savepoint_state _ s with ⟨_,h⟩ | h
      · exact (hnot h).elim
      · exact h

/-- What holds of a new database and is kept by every activity that commits holds after all. -/
theorem activity_induction (ext : Externals) (serde : Serde) (config : Option GnosisSafeConfig)
    {I : Db → Prop} (h₀ : I initialDb) (hstep : ∀ (a : Activity) s s', I s →
      (a.program ext serde config).Returns s () s' → I s') (as : List Activity) :
    I (Activity.run ext serde config as).1 := by
  induction as using List.reverseRecOn with
  | nil => exact h₀
  | append_singleton as a ih =>
    rw [Activity.run_concat]
    rcases activity_cases ext serde config a (Activity.run ext serde config as).1 with h | ⟨-,h⟩
    · exact hstep a _ _ ih h
    · rwa [h]

/-- The ledger is what syncing the blocks alone leaves. -/
theorem run_ledger (ext : Externals) (serde : Serde) (config : Option GnosisSafeConfig)
    (as : List Activity) :
    ∃ t, (syncBlocks ext (Activity.run ext serde config as).2).Returns initialDb () t ∧
      LedgerKept t (Activity.run ext serde config as).1 := by
  induction as using List.reverseRecOn with
  | nil => exact ⟨initialDb,(Program.returns_forEach_nil _ _ _ _).mpr rfl,.refl _⟩
  | append_singleton as a ih =>
    obtain ⟨t,ht,hkept⟩ := ih
    simp only [Activity.run, List.foldl_append, List.foldl_cons, List.foldl_nil] at ht hkept ⊢
    revert ht hkept
    generalize hp : as.foldl _ _ = p
    intro ht hkept
    -- an activity that fails is rolled back, and its block is not listed
    rcases activity_cases ext serde config a p.1 with h | ⟨hno,hsame⟩
    · have hok : (a.program ext serde config p.1).outcome.isOk = true := by
        rw [h.1]
        rfl
      cases a with
      | ledger b =>
        have hsync := h
        simp only [Activity.program, syncAndAudit, returns_exclusiveTransaction,
          Program.returns_bind] at hsync
        obtain ⟨data,s₁,hsync,haudit⟩ := hsync
        -- the block is synced in `t` as well, and auditing it leaves the ledger alone
        obtain ⟨t₁,ht₁,hkept₁⟩ := (respects_syncBlockWithConn b).returns hkept.symm hsync
        refine ⟨t₁,?_,hkept₁.symm.trans (ledgerKept_audit haudit)⟩
        simp only [hok, ite_true, Activity.block?, Option.toList_some]
        refine (Program.returns_forEach_append _ _ _ _ _ _).mpr ⟨t,ht,?_⟩
        refine (Program.returns_forEach_cons _ _ _ _ _ _).mpr ⟨t₁,?_,by simp⟩
        exact (Program.returns_bind _ _ _ _ _).mpr ⟨data,t₁,ht₁,by simp⟩
      -- an activity of the safes adds no block
      | gnosis safe tx =>
        refine ⟨t,?_,hkept.trans (ledgerKept_processRawTransaction h)⟩
        simpa [Activity.block?] using ht
    · refine ⟨t,?_,by rw [hsame]; exact hkept⟩
      simpa [hno] using ht

/-- No panic has left a transaction open. -/
def NoneLeftOpen (ext : Externals) (serde : Serde) (config : Option GnosisSafeConfig)
    (as : List Activity) : Prop := ∀ before safe tx, before ++ [.gnosis safe tx] <+: as →
  ¬safe.LeavesOpen serde tx (Activity.run ext serde config before).1

/-- Two runs that synced the same blocks have the same ledger, whatever the Gnosis threads did in
between and whether or not blocks are audited; if they left no transaction open they can sync the
same blocks next. The audit of a block always returns. -/
theorem runs_same_ledger (ext : Externals) (serde : Serde) (config config' : Option GnosisSafeConfig)
    (as as' : List Activity)
    (hblocks : (Activity.run ext serde config as).2 = (Activity.run ext serde config' as').2) :
    LedgerKept (Activity.run ext serde config as).1 (Activity.run ext serde config' as').1 ∧
    (NoneLeftOpen ext serde config as → NoneLeftOpen ext serde config' as' → ∀ b,
      (∃ s, (syncAndAudit ext config b).Returns (Activity.run ext serde config as).1 () s) ↔
        ∃ s, (syncAndAudit ext config' b).Returns (Activity.run ext serde config' as').1 () s) ∧
    ∀ data s, ∃ s', (auditIfConfigured config data).Returns s () s' := by
  obtain ⟨t,ht,hkept⟩ := run_ledger ext serde config as
  obtain ⟨t',ht',hkept'⟩ := run_ledger ext serde config' as'
  rw [hblocks] at ht
  -- both runs keep the ledger of the same plain sync
  obtain ⟨-,rfl⟩ := ht.unique ht'
  have hsame := hkept.symm.trans hkept'
  refine ⟨hsame,fun _ _ b => ?_,returns_auditIfConfigured config⟩
  rw [syncAndAudit_returns_iff, syncAndAudit_returns_iff]
  constructor
  · rintro ⟨data,s,hs⟩
    obtain ⟨s',hs',-⟩ := (respects_syncBlockWithConn b).returns hsame hs
    exact ⟨data,s',hs'⟩
  · rintro ⟨data,s,hs⟩
    obtain ⟨s',hs',-⟩ := (respects_syncBlockWithConn b).returns hsame.symm hs
    exact ⟨data,s',hs'⟩

def mintBlock : BlockData := Reference.blockOf 0 [] [Reference.mintFor 0x11 3] []

def depositActivity : Activity :=
  .gnosis Reference.safeA (Reference.depositTx '1' [(Reference.safeAddrA,"3000000000000")])

theorem mintBlock_synced :
    (Activity.run Reference.externals Reference.serde none [.ledger mintBlock]).2 = [mintBlock] ∧
    (Activity.run Reference.externals Reference.serde (some Reference.config)
      [depositActivity,.ledger mintBlock]).2 = [mintBlock] := by
  have hok : ((Activity.ledger mintBlock).program Reference.externals Reference.serde none
      initialDb).outcome.isOk = true := by
    decide +kernel
  have hok' : ((Activity.ledger mintBlock).program Reference.externals Reference.serde
      (some Reference.config) (depositActivity.program Reference.externals Reference.serde
        (some Reference.config) initialDb).state).outcome.isOk = true := by
    decide +kernel
  constructor
  · simp [Activity.run, hok, Activity.block?]
  · simp [Activity.run, hok', Activity.block?]
    exact fun _ => rfl

theorem mintBlock_noneLeftOpen :
    NoneLeftOpen Reference.externals Reference.serde none [.ledger mintBlock] ∧
    NoneLeftOpen Reference.externals Reference.serde (some Reference.config)
      [depositActivity,.ledger mintBlock] := by
  constructor
  · rintro before safe tx ⟨rest,h⟩
    rcases before with _ | ⟨a,_ | ⟨a',before⟩⟩ <;> simp at h
  · rintro before safe tx ⟨rest,h⟩
    rcases before with _ | ⟨a,_ | ⟨a',before⟩⟩
    · simp only [depositActivity, List.nil_append, List.singleton_append, List.cons.injEq,
        Activity.gnosis.injEq] at h
      obtain ⟨⟨rfl,rfl⟩,-⟩ := h
      exact Program.not_panics_of_isOk (by decide +kernel)
    · simp at h
    · simp at h

theorem mintBlock_same_ledger :
    let run := Activity.run Reference.externals Reference.serde none [.ledger mintBlock]
    let run' := Activity.run Reference.externals Reference.serde (some Reference.config)
      [depositActivity,.ledger mintBlock]
    LedgerKept run.1 run'.1 ∧
    (∀ b, (∃ s, (syncAndAudit Reference.externals none b).Returns run.1 () s) ↔
      ∃ s, (syncAndAudit Reference.externals (some Reference.config) b).Returns run'.1 () s) ∧
    ∀ data s, ∃ s', (auditIfConfigured none data).Returns s () s' := by
  obtain ⟨hsame,hnext,haudit⟩ := runs_same_ledger Reference.externals Reference.serde none
    (some Reference.config) _ _ (mintBlock_synced.1.trans mintBlock_synced.2.symm)
  exact ⟨hsame,hnext mintBlock_noneLeftOpen.1 mintBlock_noneLeftOpen.2,haudit⟩

end ReserveAuditor
