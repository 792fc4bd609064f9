import ReserveAuditor.Counting
import ReserveAuditor.HonestHistory
import ReserveAuditor.MatchEffects
import ReserveAuditor.Reserve

/-! Every object is matched once, or counted: the alerts, the matches and the objects add up in every
run, whatever the objects are. -/
namespace ReserveAuditor
open Txn Relational
open Counters (Counts within_inc)

variable {ext : Externals} {serde : Serde} {s s' : Db}

/-! ### Alerts -/

/-- What was counted for mints and deposits. -/
def mintAlerts (s : Db) : ℕ := mintErrors s+Counters.get s .numMismatchingMintsAndDeposits+
  Counters.get s .numUnknownEthereumTokenDeposits+Counters.get s .numMintsToUnknownSafe

/-- What was counted for burns and withdrawals. -/
def burnAlerts (s : Db) : ℕ := burnErrors s+Counters.get s .numMismatchingBurnsAndWithdrawals+
  Counters.get s .numUnknownEthereumTokenWithdrawals+Counters.get s .numBurnsFromUnknownSafe

/-- The attempts that had an outcome. -/
def mintAttempts (s : Db) : ℕ := mintAlerts s+s.auditedMints.rows.length

def burnAttempts (s : Db) : ℕ := burnAlerts s+s.auditedBurns.rows.length

theorem mintAlerts_of_counts {p : Counter → Bool} (h : Counts p s s')
    (hp : ∀ c : Counter, c.ofMints = true → p c = false) : mintAlerts s' = mintAlerts s := by
  rw [mintAlerts, mintAlerts, mintErrors, mintErrors, h.get (hp _ rfl), h.get (hp _ rfl),
    h.get (hp _ rfl), h.get (hp _ rfl), h.get (hp _ rfl)]

theorem burnAlerts_of_counts {p : Counter → Bool} (h : Counts p s s')
    (hp : ∀ c : Counter, c.ofBurns = true → p c = false) : burnAlerts s' = burnAlerts s := by
  rw [burnAlerts, burnAlerts, burnErrors, burnErrors, h.get (hp _ rfl), h.get (hp _ rfl),
    h.get (hp _ rfl), h.get (hp _ rfl), h.get (hp _ rfl)]

/-- One alert is counted in one counter. -/
theorem alerts_bump {row : Counters} (hrow : s.counters = some row) (c : Counter) :
    mintAlerts { s with counters := some (row.bump c) } =
      mintAlerts s+(if c.ofMints then 1 else 0) ∧
    burnAlerts { s with counters := some (row.bump c) } =
      burnAlerts s+(if c.ofBurns then 1 else 0) := by
  have hget := get_of_inc ((Counters.returns_inc c s _ ()).mpr ⟨row,hrow,rfl⟩)
  simp only [mintAlerts, mintErrors, burnAlerts, burnErrors, hget]
  cases c <;> simp [Counter.ofMints, Counter.ofBurns] <;> omega

/-! ### One attempt -/

/-- The attempts went up as told, and nothing but their outcomes was written. -/
structure Attempted (mints burns : ℕ) (s s' : Db) : Prop where
  frame : ∃ t u c, s' = { s with auditedMints := t, auditedBurns := u, counters := c }
  mints : mintAttempts s' = mintAttempts s+mints
  burns : burnAttempts s' = burnAttempts s+burns
  counters : s'.counters.isSome = true

theorem Attempted.trans {m n b c : ℕ} {s'' : Db} (h : Attempted m b s s')
    (h' : Attempted n c s' s'') : Attempted (m+n) (b+c) s s'' where
  frame := by
    obtain ⟨_,_,_,rfl⟩ := h.frame
    obtain ⟨t,u,c,rfl⟩ := h'.frame
    exact ⟨t,u,c,rfl⟩
  mints := by rw [h'.mints, h.mints, Nat.add_assoc]
  burns := by rw [h'.burns, h.burns, Nat.add_assoc]
  counters := h'.counters

theorem attempted_refl (hc : s.counters.isSome = true) : Attempted 0 0 s s :=
  ⟨⟨_,_,_,rfl⟩,rfl,rfl,hc⟩

/-- An effect on the side of the mints is one attempt, a match or an alert. -/
theorem MatchEffect.attempted_mint {β : Type} [Record β] {objectId : Option ℕ}
    {linked : ℕ → ℕ → Db → Db → Prop} {counter : Error → Counter} {r : Except Error β}
    (hc : s.counters.isSome = true) (hcounter : ∀ e, (counter e).ofMints = true)
    (hlinked : ∀ i j s', linked i j s s' → ∃ t : Table AuditedMint,
      t.rows.length = s.auditedMints.rows.length+1 ∧ s' = { s with auditedMints := t })
    (h : MatchEffect objectId linked counter s r s') : Attempted 1 0 s s' := by
  cases h with
  | linked _ _ hl =>
    obtain ⟨t,ht,rfl⟩ := hlinked _ _ _ hl
    exact ⟨⟨_,_,_,rfl⟩,by simp only [mintAttempts, ht]; rfl,rfl,hc⟩
  | @counted row e hrow =>
    have hone := hcounter e
    obtain ⟨hm,hb⟩ := alerts_bump hrow (counter e)
    refine ⟨⟨_,_,_,rfl⟩,?_,?_,rfl⟩
    · simp only [mintAttempts, hm, hone, ite_true]
      omega
    -- what is counted for a mint is not counted for a burn
    · have hother : (counter e).ofBurns = false := by
        cases hk : counter e <;> simp [hk, Counter.ofMints, Counter.ofBurns] at hone ⊢
      simp only [burnAttempts, hb, hother]
      rfl

theorem MatchEffect.attempted_burn {β : Type} [Record β] {objectId : Option ℕ}
    {linked : ℕ → ℕ → Db → Db → Prop} {counter : Error → Counter} {r : Except Error β}
    (hc : s.counters.isSome = true) (hcounter : ∀ e, (counter e).ofBurns = true)
    (hlinked : ∀ i j s', linked i j s s' → ∃ t : Table AuditedBurn,
      t.rows.length = s.auditedBurns.rows.length+1 ∧ s' = { s with auditedBurns := t })
    (h : MatchEffect objectId linked counter s r s') : Attempted 0 1 s s' := by
  cases h with
  | linked _ _ hl =>
    obtain ⟨t,ht,rfl⟩ := hlinked _ _ _ hl
    exact ⟨⟨_,_,_,rfl⟩,rfl,by simp only [burnAttempts, ht]; rfl,hc⟩
  | @counted row e hrow =>
    have hone := hcounter e
    obtain ⟨hm,hb⟩ := alerts_bump hrow (counter e)
    refine ⟨⟨_,_,_,rfl⟩,?_,?_,rfl⟩
    · have hother : (counter e).ofMints = false := by
        cases hk : counter e <;> simp [hk, Counter.ofMints, Counter.ofBurns] at hone ⊢
      simp only [mintAttempts, hm, hother]
      rfl
    · simp only [burnAttempts, hb, hone, ite_true]
      omega

theorem MintLinked.rows {m d : ℕ} (h : MintLinked m d s s') : ∃ t : Table AuditedMint,
    t.rows.length = s.auditedMints.rows.length+1 ∧ s' = { s with auditedMints := t } := by
  obtain ⟨t,n,ht,rfl⟩ := h
  exact ⟨t,by simp [ht],rfl⟩

theorem BurnLinked.rows {b w : ℕ} (h : BurnLinked b w s s') : ∃ t : Table AuditedBurn,
    t.rows.length = s.auditedBurns.rows.length+1 ∧ s' = { s with auditedBurns := t } := by
  obtain ⟨t,n,ht,rfl⟩ := h
  exact ⟨t,by simp [ht],rfl⟩

/-- A call with one effect ends with it. -/
theorem OneEffect.effect {β : Type} [Record β] {call : Conn β} {objectId : Option ℕ}
    {linked : ℕ → ℕ → Db → Db → Prop} {counter : Error → Counter} {r : Except Error β}
    (h : OneEffect call objectId linked counter s) (hr : call.attempt.Returns s r s') :
    MatchEffect objectId linked counter s r s' := by
  obtain ⟨r₁,s₁,heffect,hreturns⟩ := h
  obtain ⟨rfl,rfl⟩ := (hreturns 0).unique hr
  exact heffect

theorem attempted_matchDeposit {d : GnosisSafeDeposit} {safe : AuditedSafeConfig}
    {r : Except Error MintTx} (hc : s.counters.isSome = true)
    (h : (AuditedMint.tryMatchDepositWithMint d safe).attempt.Returns s r s') :
    Attempted 1 0 s s' :=
  ((oneEffect_matchDeposit d safe hc).effect h).attempted_mint hc (fun e => by cases e <;> rfl)
    fun _ _ _ hl => hl.rows

theorem attempted_matchMint {m : MintTx} {config : GnosisSafeConfig}
    {r : Except Error GnosisSafeDeposit} (hc : s.counters.isSome = true)
    (h : (AuditedMint.tryMatchMintWithDeposit m config).attempt.Returns s r s') :
    Attempted 1 0 s s' :=
  ((oneEffect_matchMint m config hc).effect h).attempted_mint hc (fun e => by cases e <;> rfl)
    fun _ _ _ hl => hl.rows

theorem attempted_matchWithdrawal {w : GnosisSafeWithdrawal} {safe : AuditedSafeConfig}
    {r : Except Error BurnTxOut} (hc : s.counters.isSome = true)
    (h : (AuditedBurn.tryMatchWithdrawalWithBurn w safe).attempt.Returns s r s') :
    Attempted 0 1 s s' :=
  ((oneEffect_matchWithdrawal w safe hc).effect h).attempted_burn hc (fun e => by cases e <;> rfl)
    fun _ _ _ hl => hl.rows

theorem attempted_matchBurn {b : BurnTxOut} {config : GnosisSafeConfig}
    {r : Except Error GnosisSafeWithdrawal} (hc : s.counters.isSome = true)
    (h : (AuditedBurn.tryMatchBurnWithWithdrawal b config).attempt.Returns s r s') :
    Attempted 0 1 s s' :=
  ((oneEffect_matchBurn b config hc).effect h).attempted_burn hc (fun e => by cases e <;> rfl)
    fun _ _ _ hl => hl.rows

/-! ### Gnosis transactions -/

/-- Each deposit and each withdrawal that is stored comes with one attempt. -/
structure OneAttemptEach (s s' : Db) : Prop where
  deposits : mintAttempts s'+s.gnosisSafeDeposits.rows.length =
    mintAttempts s+s'.gnosisSafeDeposits.rows.length
  withdrawals : burnAttempts s'+s.gnosisSafeWithdrawals.rows.length =
    burnAttempts s+s'.gnosisSafeWithdrawals.rows.length
  counters : s'.counters.isSome = true

/-- While there is a row of counters. -/
def Accounted (s s' : Db) : Prop := s.counters.isSome = true → OneAttemptEach s s'

instance : IsPreorder Db Accounted where
  refl _ hc := ⟨rfl,rfl,hc⟩
  trans s s₁ s' h h' hc := by
    have h₁ := h hc
    have h₂ := h' h₁.counters
    have hd := h₁.deposits
    have hd' := h₂.deposits
    have hw := h₁.withdrawals
    have hw' := h₂.withdrawals
    exact ⟨by omega,by omega,h₂.counters⟩

/-- A statement that stores no object and counts no alert. -/
theorem accounted_of_counts {p : Counter → Bool} (h : Counts p s s')
    (hp : ∀ c : Counter, c.ofMints = true ∨ c.ofBurns = true → p c = false)
    (ham : s'.auditedMints = s.auditedMints) (hab : s'.auditedBurns = s.auditedBurns)
    (hds : s'.gnosisSafeDeposits = s.gnosisSafeDeposits)
    (hws : s'.gnosisSafeWithdrawals = s.gnosisSafeWithdrawals) : Accounted s s' := by
  have hm := mintAlerts_of_counts h fun c hc => hp c (Or.inl hc)
  have hb := burnAlerts_of_counts h fun c hc => hp c (Or.inr hc)
  intro hc
  refine ⟨?_,?_,by rw [h.isSome, hc]⟩
  · rw [mintAttempts, mintAttempts, hm, ham, hds]
  · rw [burnAttempts, burnAttempts, hb, hab, hws]

theorem accounted_inc {c : Counter} (hc : c.ofMints = false ∧ c.ofBurns = false) :
    Program.Within Accounted (Counters.inc c) := by
  refine Program.within_of_ends (Counters.not_panics_inc c) (fun s u s' h => ?_) fun s e s' h => ?_
  · have hcounts : Counts (fun d => !d.ofMints && !d.ofBurns) s s' :=
      (within_inc (by simp [hc])).returns h
    obtain ⟨row,-,rfl⟩ := (Counters.returns_inc c s s' u).mp h
    refine accounted_of_counts hcounts (fun d hd => ?_) rfl rfl rfl rfl
    rcases hd with hd | hd <;> simp [hd]
  · obtain ⟨-,-,rfl⟩ := (Counters.fails_inc c s s' e).mp h
    exact refl_of Accounted s'

/-- The insertion adds the deposit, and the attempt adds its outcome. -/
theorem accounted_storeDeposit (safe : AuditedSafeConfig) (d₀ : GnosisSafeDeposit) :
    Program.Within Accounted (safe.storeDeposit d₀) := by
  refine Program.within_of_ends (fun s => ?_) (fun s u s' h hc => ?_) fun s e s' h => ?_
  · simp [AuditedSafeConfig.storeDeposit, GnosisSafeDeposit.insert, not_panics_insertUnsaved,
      not_panics_matchDeposit]
  · simp only [AuditedSafeConfig.storeDeposit, Program.returns_bind, Program.returns_pure] at h
    obtain ⟨d,s₁,hins,r,_,hmatch,-,rfl⟩ := h
    obtain ⟨-,n,t,hi,-,rfl,-⟩ := (returns_insertUnsaved _ _ _ _ _ _ _ _).mp hins
    obtain ⟨-,-,ht⟩ := (Table.insert_eq_ok _ _ _ _).mp hi
    have hattempt := attempted_matchDeposit (s := { s with gnosisSafeDeposits := t }) hc hmatch
    obtain ⟨v,c,-,rfl⟩ := frame_matchDeposit hmatch
    have hm : mintAttempts _ = mintAttempts s+1 := hattempt.mints
    have hb : burnAttempts _ = burnAttempts s+0 := hattempt.burns
    refine ⟨?_,?_,hattempt.counters⟩
    · rw [hm, ht, List.length_append, List.length_singleton]
      omega
    · rw [hb]
      rfl
  · rw [(fails_storeDeposit h).1]
    exact refl_of Accounted s

theorem accounted_storeWithdrawal (safe : AuditedSafeConfig) (w₀ : GnosisSafeWithdrawal) :
    Program.Within Accounted (safe.storeWithdrawal w₀) := by
  refine Program.within_of_ends (fun s => ?_) (fun s u s' h hc => ?_) fun s e s' h => ?_
  · simp [AuditedSafeConfig.storeWithdrawal, GnosisSafeWithdrawal.insert, not_panics_insertUnsaved,
      not_panics_matchWithdrawal]
  · simp only [AuditedSafeConfig.storeWithdrawal, Program.returns_bind, Program.returns_pure] at h
    obtain ⟨w,s₁,hins,r,_,hmatch,-,rfl⟩ := h
    obtain ⟨-,n,t,hi,-,rfl,-⟩ := (returns_insertUnsaved _ _ _ _ _ _ _ _).mp hins
    obtain ⟨-,-,ht⟩ := (Table.insert_eq_ok _ _ _ _).mp hi
    have hattempt := attempted_matchWithdrawal (s := { s with gnosisSafeWithdrawals := t }) hc hmatch
    obtain ⟨v,c,-,rfl⟩ := frame_matchWithdrawal hmatch
    have hm : mintAttempts _ = mintAttempts s+0 := hattempt.mints
    have hb : burnAttempts _ = burnAttempts s+1 := hattempt.burns
    refine ⟨?_,?_,hattempt.counters⟩
    · rw [hm]
      rfl
    · rw [hb, ht, List.length_append, List.length_singleton]
      omega
  · rw [fails_storeWithdrawal h]
    exact refl_of Accounted s

theorem storeParts_accounted (safe : AuditedSafeConfig) :
    StoreParts (fun s (_ : List Counters) s' => Accounted s s') safe where
  transfer := accounted_inc ⟨rfl,rfl⟩
  multiSig := accounted_inc ⟨rfl,rfl⟩
  deposit := accounted_storeDeposit safe
  withdrawal := accounted_storeWithdrawal safe

theorem accounted_processRawTransaction (safe : AuditedSafeConfig) (serde : Serde)
    (tx : RawGnosisTransaction) :
    Program.Within Accounted (safe.processRawTransaction serde tx) := by
  rw [processRawTransaction_eq]
  exact Program.within_expect _ (Program.within_savepoint
    ((storeParts_accounted safe).recordAndProcess (leaves_insertTx serde tx fun _ _ hc => ⟨rfl,rfl,hc⟩)))

/-! ### Blocks -/

variable {config : GnosisSafeConfig}

/-- A loop of attempts, all on one side. -/
theorem attempted_loop {α β : Type} {f : α → Conn β} {m b : ℕ}
    (hone : ∀ a s r s', s.counters.isSome = true → (f a).attempt.Returns s r s' →
      Attempted m b s s') (as : List α) {u : Unit} (hc : s.counters.isSome = true)
    (h : (Program.forEach as fun a => do
      let _ ← Program.attempt (f a)
      pure ()).Returns s u s') : Attempted (as.length*m) (as.length*b) s s' := by
  induction as generalizing s with
  | nil =>
    rw [(Program.returns_forEach_nil _ s s' u).mp h]
    simpa using attempted_refl hc
  | cons a as ih =>
    obtain ⟨s₁,hfirst,hrest⟩ := (Program.returns_forEach_cons _ _ _ s s' u).mp h
    simp only [Program.returns_bind, Program.returns_pure] at hfirst
    obtain ⟨r,_,hr,-,rfl⟩ := hfirst
    have h₁ := hone a s r s₁ hc hr
    have hall := h₁.trans (ih h₁.counters hrest)
    rwa [List.length_cons, Nat.succ_mul, Nat.succ_mul, Nat.add_comm _ m, Nat.add_comm _ b]

theorem attempted_audit {data : SyncBlockData} {u : Unit} (hc : s.counters.isSome = true)
    (h : (auditBlockData config data).Returns s u s') :
    Attempted data.mintTxs.length data.burnTxOuts.length s s' := by
  simp only [auditBlockData, Program.returns_bind] at h
  obtain ⟨_,s₁,hmints,hburns⟩ := h
  have hm := attempted_loop (fun _ _ _ _ => attempted_matchMint) data.mintTxs hc hmints
  have hb := attempted_loop (fun _ _ _ _ => attempted_matchBurn) data.burnTxOuts hm.counters hburns
  simpa using hm.trans hb

/-! ### Runs -/

/-- Each mint and each deposit, and each burn and each withdrawal, had one attempt. -/
structure AttemptsCounted (s : Db) : Prop where
  mints : mintAttempts s = s.mintTxs.rows.length+s.gnosisSafeDeposits.rows.length
  burns : burnAttempts s = s.burnTxOuts.rows.length+s.gnosisSafeWithdrawals.rows.length

theorem attemptsCounted_ledger {b : BlockData} {u : Unit} (hr : ConfigRefs s)
    (hc : s.counters.isSome = true) (hi : AttemptsCounted s)
    (h : (syncAndAudit ext (some config) b).Returns s u s') : AttemptsCounted s' := by
  simp only [syncAndAudit, returns_exclusiveTransaction, Program.returns_bind] at h
  obtain ⟨data,s₁,hsync,haudit⟩ := h
  have hsynced := returns_syncBlockWithConn hr hsync
  have hcounts := (counts_syncBlockWithConn ext b).returns hsync
  have ham : mintAlerts s₁ = mintAlerts s := mintAlerts_of_counts hcounts fun c hc => by
    cases c <;> simp [Counter.ofMints, Counter.ofLedger] at hc ⊢
  have hab : burnAlerts s₁ = burnAlerts s := burnAlerts_of_counts hcounts fun c hc => by
    cases c <;> simp [Counter.ofBurns, Counter.ofLedger] at hc ⊢
  have haudited := attempted_audit (hcounts.isSome ▸ hc) haudit
  have hm := haudited.mints
  have hb := haudited.burns
  obtain ⟨t,u,c,rfl⟩ := haudited.frame
  constructor
  · change _ = s₁.mintTxs.rows.length+s₁.gnosisSafeDeposits.rows.length
    have hbefore := hi.mints
    rw [mintAttempts] at hbefore
    rw [hm, mintAttempts, ham, hsynced.gnosis.auditedMints, hsynced.mints, hsynced.gnosis.deposits,
      List.length_append]
    omega
  · change _ = s₁.burnTxOuts.rows.length+s₁.gnosisSafeWithdrawals.rows.length
    have hbefore := hi.burns
    rw [burnAttempts] at hbefore
    rw [hb, burnAttempts, hab, hsynced.gnosis.auditedBurns, hsynced.burns,
      hsynced.gnosis.withdrawals, List.length_append]
    omega

theorem attemptsCounted_gnosis {safe : AuditedSafeConfig} {tx : RawGnosisTransaction}
    (hc : s.counters.isSome = true) (hi : AttemptsCounted s)
    (h : (safe.processRawTransaction serde tx).Returns s () s') : AttemptsCounted s' := by
  have heach := (accounted_processRawTransaction safe serde tx).returns h hc
  have hkept := ledgerKept_processRawTransaction h
  have hm := hi.mints
  have hb := hi.burns
  have hd := heach.deposits
  have hw := heach.withdrawals
  refine ⟨?_,?_⟩
  · rw [hkept.mintTxs]
    omega
  · rw [hkept.burnTxOuts]
    omega

/-- The alerts of each side are its matched pairs, each for the object that came first, and its
unaudited objects. -/
structure AlertsExplained (s : Db) : Prop where
  mints : mintAlerts s = (AuditedMint.withMintAndDeposit s).length+
    (MintTx.findUnauditedMintTxs s).length+(GnosisSafeDeposit.findUnauditedDeposits s).length
  burns : burnAlerts s = (AuditedBurn.withBurnAndWithdrawal s).length+
    (BurnTxOut.findUnauditedBurnTxOuts s).length+
    (GnosisSafeWithdrawal.findUnauditedWithdrawals s).length

theorem AttemptsCounted.explained (h : AttemptsCounted s) (hi : Intact s) : AlertsExplained s := by
  -- every match is joined, so the listings are as long as the tables
  have hmints : (AuditedMint.withMintAndDeposit s).length = s.auditedMints.rows.length := by
    refine List.filterMap_length_eq_length.mpr fun a ha => ?_
    obtain ⟨⟨m,hm⟩,d,hd⟩ := hi.mints a ha
    simp [hm, hd]
  have hburns : (AuditedBurn.withBurnAndWithdrawal s).length = s.auditedBurns.rows.length := by
    refine List.filterMap_length_eq_length.mpr fun a ha => ?_
    obtain ⟨⟨b,hb⟩,w,hw⟩ := hi.burns a ha
    simp [hb, hw]
  have hm := hi.splits_mints.perm.length_eq
  have hd := hi.splits_deposits.perm.length_eq
  have hb := hi.splits_burns.perm.length_eq
  have hw := hi.splits_withdrawals.perm.length_eq
  rw [List.length_append, List.length_map] at hm hd hb hw
  have hma := h.mints
  have hba := h.burns
  rw [mintAttempts] at hma
  rw [burnAttempts] at hba
  constructor <;> omega

/-- Whatever the threads do, the alerts that are counted are explained by the listings: one for each
audited pair and one for each unaudited object. -/
theorem run_alerts_explained (ext : Externals) (serde : Serde) (config : GnosisSafeConfig)
    (as : List Activity) : AlertsExplained (Activity.run ext serde (some config) as).1 := by
  have hall : (∃ n, SyncedTo n (Activity.run ext serde (some config) as).1) ∧
      AttemptsCounted (Activity.run ext serde (some config) as).1 := by
    refine activity_induction (I := fun s => (∃ n, SyncedTo n s) ∧ AttemptsCounted s) ext serde
      (some config) ⟨⟨0,syncedTo_initial⟩,rfl,rfl⟩ (fun a s s' hi h => ?_) as
    obtain ⟨⟨n,hs⟩,hcounted⟩ := hi
    cases a with
    | ledger b => exact ⟨⟨n+1,hs.syncAndAudit h⟩,attemptsCounted_ledger hs.refs hs.counters hcounted h⟩
    | gnosis safe tx => exact ⟨⟨n,(ledgerKept_processRawTransaction h).syncedTo hs⟩,
        attemptsCounted_gnosis hs.counters hcounted h⟩
  exact hall.2.explained (intact_activities _ as)

end ReserveAuditor
