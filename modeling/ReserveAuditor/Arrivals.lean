import ReserveAuditor.History
import ReserveAuditor.Listings
import ReserveAuditor.MatchEffects

/-! Matches are made on arrival. Whoever audits, a pair is only matched when one of its halves is
stored, so what was stored and left unmatched is not matched later with what was there as well. -/
namespace ReserveAuditor
open Txn Relational

variable {ext : Externals} {serde : Serde} {s₀ s s' : Db} {n : ℕ}

/-- Rows were added, and each row that was added to an audit table refers to an object that was
not stored. -/
structure Arrives (s s' : Db) : Prop where
  grows : Grows s s'
  mints : ∀ a ∈ s'.auditedMints.rows, a ∈ s.auditedMints.rows ∨
    s.mintTxs.find a.mintTxId = none ∨ s.gnosisSafeDeposits.find a.gnosisSafeDepositId = none
  burns : ∀ a ∈ s'.auditedBurns.rows, a ∈ s.auditedBurns.rows ∨
    s.burnTxOuts.find a.burnTxOutId = none ∨
    s.gnosisSafeWithdrawals.find a.gnosisSafeWithdrawalId = none

instance : IsPreorder Db Arrives where
  refl _ := ⟨refl_of Grows _,fun _ => Or.inl,fun _ => Or.inl⟩
  trans s s₁ s' h h' := by
    refine ⟨trans_of Grows h.grows h'.grows,fun a ha => ?_,fun a ha => ?_⟩
    · rcases h'.mints a ha with hold | hm | hd
      · exact h.mints a hold
      · exact Or.inr (Or.inl (Table.find_none_of_grown h.grows.mints hm))
      · exact Or.inr (Or.inr (Table.find_none_of_grown h.grows.deposits hd))
    · rcases h'.burns a ha with hold | hb | hw
      · exact h.burns a hold
      · exact Or.inr (Or.inl (Table.find_none_of_grown h.grows.burns hb))
      · exact Or.inr (Or.inr (Table.find_none_of_grown h.grows.withdrawals hw))

/-- Nothing was matched. -/
theorem Arrives.kept (h : Arrives s₀ s) (hg : Grows s s') (hm : s'.auditedMints = s.auditedMints)
    (hb : s'.auditedBurns = s.auditedBurns) : Arrives s₀ s' where
  grows := trans_of Grows h.grows hg
  mints := hm ▸ h.mints
  burns := hb ▸ h.burns

theorem arrives_of_grows (hg : Grows s s') (hm : s'.auditedMints = s.auditedMints)
    (hb : s'.auditedBurns = s.auditedBurns) : Arrives s s' :=
  (refl_of Arrives s).kept hg hm hb

/-- A mint and a deposit were matched, one of which was not stored at first. -/
theorem Arrives.linkMint (h : Arrives s₀ s) (hg : Grows s s') {mintId depositId : ℕ}
    (hl : MintLinked mintId depositId s s')
    (hnew : s₀.mintTxs.find mintId = none ∨ s₀.gnosisSafeDeposits.find depositId = none) :
    Arrives s₀ s' := by
  obtain ⟨t,n,ht,rfl⟩ := hl
  refine ⟨trans_of Grows h.grows hg,fun a ha => ?_,h.burns⟩
  change a ∈ t.rows at ha
  rw [ht] at ha
  rcases List.mem_append.mp ha with ha | ha
  · exact h.mints a ha
  · rw [List.mem_singleton.mp ha]
    exact Or.inr hnew

theorem Arrives.linkBurn (h : Arrives s₀ s) (hg : Grows s s') {burnId withdrawalId : ℕ}
    (hl : BurnLinked burnId withdrawalId s s')
    (hnew : s₀.burnTxOuts.find burnId = none ∨ s₀.gnosisSafeWithdrawals.find withdrawalId = none) :
    Arrives s₀ s' := by
  obtain ⟨t,n,ht,rfl⟩ := hl
  refine ⟨trans_of Grows h.grows hg,h.mints,fun a ha => ?_⟩
  change a ∈ t.rows at ha
  rw [ht] at ha
  rcases List.mem_append.mp ha with ha | ha
  · exact h.burns a ha
  · rw [List.mem_singleton.mp ha]
    exact Or.inr hnew

/-! ### Attempts -/

section tryMatch
variable {β : Type} [Record β] {objectId : Option ℕ} {precheck : Except Error Unit}
  {existing : ℕ → Db → Option String} {onExisting : Conn Unit} {find : Db → Option β}
  {check : β → Except Error Unit} {countError : Error → Counter}

/-- An attempt links its object, or it only counts. -/
theorem attempt_links (linked : ℕ → ℕ → Db → Db → Prop) {message : String} {f : ℕ → ℕ → Conn Unit}
    {r : Except Error β}
    (hcount : ∀ e, (countError e).ofLedger = false)
    (hkey : ∀ b, find s = some b → Record.id b = some (key b))
    (hlink : ∀ id n s', (f id n).Returns s () s' → linked id n s s')
    (h : (tryMatch objectId precheck existing onExisting find check
      (fun id b => do
        let n ← Program.ofOutcome (.unwrap message (Record.id b))
        f id n) countError).attempt.Returns s r s') :
    CountFrame s s' ∨ ∃ id n, objectId = some id ∧ linked id n s s' := by
  cases r with
  | ok b =>
    obtain ⟨id,hid,-,-,hf,-,ha⟩ :=
      (returns_tryMatch s s' b).mp ((Program.returns_attempt_ok _ s s' b).mp h)
    rw [hkey b hf, unwrap_bind] at ha
    exact Or.inr ⟨id,key b,hid,hlink id (key b) s' ha⟩
  | error e => exact Or.inl (fails_tryMatch hcount ((Program.returns_attempt_error _ s s' e).mp h))

end tryMatch

theorem Arrives.counted (h : Arrives s₀ s) (hg : Grows s s') (hc : CountFrame s s') :
    Arrives s₀ s' := by
  obtain ⟨c,-,rfl⟩ := hc
  exact h.kept hg rfl rfl

variable {safe : AuditedSafeConfig} {config : GnosisSafeConfig}

theorem Arrives.matchDeposit (h : Arrives s₀ s) {d : GnosisSafeDeposit} {r : Except Error MintTx}
    (hnew : ∀ id, d.id = some id → s₀.gnosisSafeDeposits.find id = none)
    (hr : (AuditedMint.tryMatchDepositWithMint d safe).attempt.Returns s r s') : Arrives s₀ s' := by
  have hgrows : Grows s s' :=
    (Program.within_attempt ((gnosisParts_grows safe).matchDeposit d)).returns hr
  rcases attempt_links (fun id n => MintLinked n id) (by intro e; cases e <;> rfl)
    (fun _ hf => id_of_find? hf) (fun _ _ _ ha => mintLinked_associate ha) hr with
    hcounted | ⟨id,n,hid,hl⟩
  · exact h.counted hgrows hcounted
  · exact h.linkMint hgrows hl (Or.inr (hnew id hid))

theorem Arrives.matchMint (h : Arrives s₀ s) {m : MintTx} {r : Except Error GnosisSafeDeposit}
    (hnew : ∀ id, m.id = some id → s₀.mintTxs.find id = none)
    (hr : (AuditedMint.tryMatchMintWithDeposit m config).attempt.Returns s r s') :
    Arrives s₀ s' := by
  have hgrows : Grows s s' :=
    (Program.within_attempt ((auditParts_grows config).matchMint m)).returns hr
  rcases attempt_links MintLinked (f := fun id n => AuditedMint.associateDepositWithMint n id)
    (by intro e; cases e <;> rfl) (fun _ hf => id_of_find? hf)
    (fun _ _ _ ha => mintLinked_associate ha) hr with hcounted | ⟨id,n,hid,hl⟩
  · exact h.counted hgrows hcounted
  · exact h.linkMint hgrows hl (Or.inl (hnew id hid))

theorem Arrives.matchWithdrawal (h : Arrives s₀ s) {w : GnosisSafeWithdrawal}
    {r : Except Error BurnTxOut}
    (hnew : ∀ id, w.id = some id → s₀.gnosisSafeWithdrawals.find id = none)
    (hr : (AuditedBurn.tryMatchWithdrawalWithBurn w safe).attempt.Returns s r s') :
    Arrives s₀ s' := by
  have hgrows : Grows s s' :=
    (Program.within_attempt ((gnosisParts_grows safe).matchWithdrawal w)).returns hr
  rcases attempt_links (fun id n => BurnLinked n id) (by intro e; cases e <;> rfl)
    (fun _ hf => id_of_find? hf) (fun _ _ _ ha => burnLinked_associate ha) hr with
    hcounted | ⟨id,n,hid,hl⟩
  · exact h.counted hgrows hcounted
  · exact h.linkBurn hgrows hl (Or.inr (hnew id hid))

theorem Arrives.matchBurn (h : Arrives s₀ s) {b : BurnTxOut} {r : Except Error GnosisSafeWithdrawal}
    (hnew : ∀ id, b.id = some id → s₀.burnTxOuts.find id = none)
    (hr : (AuditedBurn.tryMatchBurnWithWithdrawal b config).attempt.Returns s r s') :
    Arrives s₀ s' := by
  have hgrows : Grows s s' :=
    (Program.within_attempt ((auditParts_grows config).matchBurn b)).returns hr
  rcases attempt_links BurnLinked (f := fun id n => AuditedBurn.associateWithdrawalWithBurn n id)
    (by intro e; cases e <;> rfl) (fun _ hf => id_of_find? hf)
    (fun _ _ _ ha => burnLinked_associate ha) hr with hcounted | ⟨id,n,hid,hl⟩
  · exact h.counted hgrows hcounted
  · exact h.linkBurn hgrows hl (Or.inl (hnew id hid))

/-! ### Steps -/

/-- The ids of rows that were added. -/
theorem find_id_of_new {ρ : Type} [Record ρ] {t t' : Table ρ} {new : List ρ}
    (h : t'.rows = t.rows ++ new) {r : ρ} (hr : r ∈ new) {id : ℕ} (hid : Record.id r = some id) :
    t.find id = none := by
  have hkey : key r = id := by rw [key, hid, Option.getD_some]
  exact hkey ▸ Table.find_none_of_new h hr

theorem arrives_inc (c : Counter) : Program.Within Arrives (Counters.inc c) := by
  refine Program.within_of_ends (Counters.not_panics_inc c) (fun s u s' h => ?_) fun s e s' h => ?_
  · have hgrows : Grows s s' := (grows_inc c).returns h
    obtain ⟨row,-,rfl⟩ := (Counters.returns_inc c s s' u).mp h
    exact arrives_of_grows hgrows rfl rfl
  · obtain ⟨-,-,rfl⟩ := (Counters.fails_inc c s s' e).mp h
    exact refl_of Arrives _

/-- The deposit that is matched is the one that was just stored. -/
theorem arrives_storeDeposit (safe : AuditedSafeConfig) (d₀ : GnosisSafeDeposit) :
    Program.Within Arrives (safe.storeDeposit d₀) := by
  refine Program.within_of_ends (fun s => ?_) (fun s u s' h => ?_) fun s e s' h => ?_
  · simp [AuditedSafeConfig.storeDeposit, GnosisSafeDeposit.insert, not_panics_insertUnsaved,
      not_panics_matchDeposit]
  · simp only [AuditedSafeConfig.storeDeposit, Program.returns_bind, Program.returns_pure] at h
    obtain ⟨d,s₁,hins,r,_,hmatch,-,rfl⟩ := h
    have hgrows : Grows s s₁ := Program.Within.returns ((gnosisParts_grows safe).deposit d₀) hins
    obtain ⟨-,n,t,hi,-,rfl,rfl⟩ := (returns_insertUnsaved _ _ _ _ _ _ _ _).mp hins
    exact (arrives_of_grows hgrows rfl rfl).matchDeposit
      (fun id hid => find_id_of_new (rows_of_insert hi) (List.mem_singleton.mpr rfl) hid) hmatch
  · rw [(fails_storeDeposit h).1]
    exact refl_of Arrives s

theorem arrives_storeWithdrawal (safe : AuditedSafeConfig) (w₀ : GnosisSafeWithdrawal) :
    Program.Within Arrives (safe.storeWithdrawal w₀) := by
  refine Program.within_of_ends (fun s => ?_) (fun s u s' h => ?_) fun s e s' h => ?_
  · simp [AuditedSafeConfig.storeWithdrawal, GnosisSafeWithdrawal.insert, not_panics_insertUnsaved,
      not_panics_matchWithdrawal]
  · simp only [AuditedSafeConfig.storeWithdrawal, Program.returns_bind, Program.returns_pure] at h
    obtain ⟨w,s₁,hins,r,_,hmatch,-,rfl⟩ := h
    have hgrows : Grows s s₁ :=
      Program.Within.returns ((gnosisParts_grows safe).withdrawal w₀) hins
    obtain ⟨-,n,t,hi,-,rfl,rfl⟩ := (returns_insertUnsaved _ _ _ _ _ _ _ _).mp hins
    exact (arrives_of_grows hgrows rfl rfl).matchWithdrawal
      (fun id hid => find_id_of_new (rows_of_insert hi) (List.mem_singleton.mpr rfl) hid) hmatch
  · rw [fails_storeWithdrawal h]
    exact refl_of Arrives s

theorem storeParts_arrives (safe : AuditedSafeConfig) :
    StoreParts (fun s (_ : List Counters) s' => Arrives s s') safe where
  transfer := arrives_inc _
  multiSig := arrives_inc _
  deposit := arrives_storeDeposit safe
  withdrawal := arrives_storeWithdrawal safe

theorem arrives_processRawTransaction (safe : AuditedSafeConfig) (serde : Serde)
    (tx : RawGnosisTransaction) :
    Program.Within Arrives (safe.processRawTransaction serde tx) := by
  rw [processRawTransaction_eq]
  exact Program.within_expect _ (Program.within_savepoint
    ((storeParts_arrives safe).recordAndProcess (leaves_insertTx serde tx fun s _ =>
      arrives_of_grows { refl_of Grows s with } rfl rfl)))

/-- Attempts for objects that were not stored at first. -/
theorem arrives_loop {α β : Type} {f : α → Conn β} {as : List α} (hone : ∀ a ∈ as, ∀ s r s',
    Arrives s₀ s → (f a).attempt.Returns s r s' → Arrives s₀ s') {u : Unit} (h : Arrives s₀ s)
    (hr : (Program.forEach as fun a => do
      let _ ← Program.attempt (f a)
      pure ()).Returns s u s') : Arrives s₀ s' := by
  induction as generalizing s with
  | nil =>
    rw [(Program.returns_forEach_nil _ s s' u).mp hr]
    exact h
  | cons a as ih =>
    obtain ⟨s₁,hfirst,hrest⟩ := (Program.returns_forEach_cons _ _ _ s s' u).mp hr
    simp only [Program.returns_bind, Program.returns_pure] at hfirst
    obtain ⟨r,_,hattempt,-,rfl⟩ := hfirst
    have h₁ := hone a List.mem_cons_self s r s₁ h hattempt
    exact ih (fun x hx => hone x (List.mem_cons_of_mem a hx)) h₁ hrest

/-- The mints and burns that are matched are those of the block that was just synced. -/
theorem arrives_syncAndAudit {config : Option GnosisSafeConfig} {b : BlockData} {u : Unit}
    (hr : ConfigRefs s) (h : (syncAndAudit ext config b).Returns s u s') : Arrives s s' := by
  simp only [syncAndAudit, returns_exclusiveTransaction, Program.returns_bind] at h
  obtain ⟨data,s₁,hsync,haudit⟩ := h
  have hgrows : Grows s s₁ := (grows_syncBlockWithConn ext b).returns hsync
  have hsynced := returns_syncBlockWithConn hr hsync
  have hsync : Arrives s s₁ :=
    arrives_of_grows hgrows hsynced.gnosis.auditedMints hsynced.gnosis.auditedBurns
  cases config with
  | none =>
    obtain ⟨-,rfl⟩ := (Program.returns_pure _ _ _ _).mp haudit
    exact hsync
  | some config =>
    simp only [auditIfConfigured, auditBlockData, Program.returns_bind] at haudit
    obtain ⟨_,s₂,hmints,hburns⟩ := haudit
    have h₂ : Arrives s s₂ := arrives_loop (fun m hm _ _ _ hi hattempt =>
      hi.matchMint (fun id hid => find_id_of_new hsynced.mints hm hid) hattempt) hsync hmints
    exact arrives_loop (fun x hx _ _ _ hi hattempt =>
      hi.matchBurn (fun id hid => find_id_of_new hsynced.burns hx hid) hattempt) h₂ hburns

/-! ### Runs -/

section ScanState
variable {ι : Type} [DecidableEq ι] {c c' : ScanState ι}

theorem ScanStep.arrives (h : ScanStep ext serde c c') (hs : SyncedTo n c.db) :
    Arrives c.db c'.db := by
  rcases h.activity hs.counters with h | ⟨config,a,h⟩
  · rw [h]
    exact refl_of Arrives _
  · cases a with
    | ledger b => exact arrives_syncAndAudit hs.refs h
    | gnosis safe tx => exact (arrives_processRawTransaction safe serde tx).returns h

theorem Scanned.arrives (h : Scanned ext serde c)
    (hrun : Relation.ReflTransGen (ScanStep ext serde) c c') :
    Scanned ext serde c' ∧ Arrives c.db c'.db := by
  induction hrun with
  | refl => exact ⟨h,refl_of Arrives _⟩
  | tail _ next ih =>
    obtain ⟨hmid,harrives⟩ := ih
    exact ⟨hmid.step next,trans_of Arrives harrives (next.arrives hmid.syncedTo)⟩

end ScanState

/-- What the listings of `s` and of a later `s'` have to do with each other. -/
structure MatchedOnArrival (s s' : Db) : Prop where
  mints : ∀ r ∈ AuditedMint.withMintAndDeposit s', r ∈ AuditedMint.withMintAndDeposit s ∨
    r.2.1 ∉ s.mintTxs.rows ∨ r.2.2 ∉ s.gnosisSafeDeposits.rows
  burns : ∀ r ∈ AuditedBurn.withBurnAndWithdrawal s', r ∈ AuditedBurn.withBurnAndWithdrawal s ∨
    r.2.1 ∉ s.burnTxOuts.rows ∨ r.2.2 ∉ s.gnosisSafeWithdrawals.rows
  unauditedMints : ∀ m ∈ MintTx.findUnauditedMintTxs s, m ∈ MintTx.findUnauditedMintTxs s' ∨
    ∃ r ∈ AuditedMint.withMintAndDeposit s', r.2.1 = m ∧ r.2.2 ∉ s.gnosisSafeDeposits.rows
  unauditedDeposits : ∀ d ∈ GnosisSafeDeposit.findUnauditedDeposits s,
    d ∈ GnosisSafeDeposit.findUnauditedDeposits s' ∨
    ∃ r ∈ AuditedMint.withMintAndDeposit s', r.2.2 = d ∧ r.2.1 ∉ s.mintTxs.rows
  unauditedBurns : ∀ b ∈ BurnTxOut.findUnauditedBurnTxOuts s,
    b ∈ BurnTxOut.findUnauditedBurnTxOuts s' ∨
    ∃ r ∈ AuditedBurn.withBurnAndWithdrawal s', r.2.1 = b ∧ r.2.2 ∉ s.gnosisSafeWithdrawals.rows
  unauditedWithdrawals : ∀ w ∈ GnosisSafeWithdrawal.findUnauditedWithdrawals s,
    w ∈ GnosisSafeWithdrawal.findUnauditedWithdrawals s' ∨
    ∃ r ∈ AuditedBurn.withBurnAndWithdrawal s', r.2.2 = w ∧ r.2.1 ∉ s.burnTxOuts.rows

/-- A row that is found in the longer table under a key that is not in use in the shorter one. -/
theorem not_mem_of_find_none {ρ : Type} [Record ρ] {t t' : Table ρ} {id : ℕ} {r : ρ}
    (hr : t'.find id = some r) (hn : t.find id = none) : r ∉ t.rows := by
  intro hmem
  have hfound : t.find id = some r :=
    (t.find_eq_some id r).mpr ⟨hmem,((t'.find_eq_some id r).mp hr).2⟩
  rw [hn] at hfound
  exact absurd hfound (by simp)

/-- The join of an old row finds in the longer table what it found before. -/
theorem find_eq_of_grown {ρ : Type} [Record ρ] {t t' : Table ρ} (h : t.rows <+: t'.rows) {id : ℕ}
    {r : ρ} (hr : t'.find id = some r) (hold : ∃ x, t.find id = some x) : t.find id = some r := by
  obtain ⟨new,hnew⟩ := h
  obtain ⟨x,hx⟩ := hold
  rw [hx, ← hr, Table.find_append hnew.symm hx]

theorem Arrives.mints_joined (h : Arrives s s') (hi : Intact s)
    {r : AuditedMint × MintTx × GnosisSafeDeposit} (hr : r ∈ AuditedMint.withMintAndDeposit s') :
    r ∈ AuditedMint.withMintAndDeposit s ∨ r.2.1 ∉ s.mintTxs.rows ∨
      r.2.2 ∉ s.gnosisSafeDeposits.rows := by
  obtain ⟨ha,hm,hd⟩ := (mem_withMintAndDeposit s' r).mp hr
  rcases h.mints r.1 ha with hold | hnone | hnone
  · obtain ⟨hm₀,hd₀⟩ := hi.mints r.1 hold
    exact Or.inl ((mem_withMintAndDeposit s r).mpr ⟨hold,find_eq_of_grown h.grows.mints hm hm₀,
      find_eq_of_grown h.grows.deposits hd hd₀⟩)
  · exact Or.inr (Or.inl (not_mem_of_find_none hm hnone))
  · exact Or.inr (Or.inr (not_mem_of_find_none hd hnone))

theorem Arrives.burns_joined (h : Arrives s s') (hi : Intact s)
    {r : AuditedBurn × BurnTxOut × GnosisSafeWithdrawal}
    (hr : r ∈ AuditedBurn.withBurnAndWithdrawal s') :
    r ∈ AuditedBurn.withBurnAndWithdrawal s ∨ r.2.1 ∉ s.burnTxOuts.rows ∨
      r.2.2 ∉ s.gnosisSafeWithdrawals.rows := by
  obtain ⟨ha,hb,hw⟩ := (mem_withBurnAndWithdrawal s' r).mp hr
  rcases h.burns r.1 ha with hold | hnone | hnone
  · obtain ⟨hb₀,hw₀⟩ := hi.burns r.1 hold
    exact Or.inl ((mem_withBurnAndWithdrawal s r).mpr ⟨hold,find_eq_of_grown h.grows.burns hb hb₀,
      find_eq_of_grown h.grows.withdrawals hw hw₀⟩)
  · exact Or.inr (Or.inl (not_mem_of_find_none hb hnone))
  · exact Or.inr (Or.inr (not_mem_of_find_none hw hnone))

/-- Whatever scanners and Gnosis threads do next, and whether they audit or not: a new pair has a
half that was not stored, and an unaudited object stays unaudited until its partner is stored. -/
theorem scanned_matched_on_arrival {ι : Type} [DecidableEq ι] (ext : Externals) (serde : Serde)
    (c c' : ScanState ι) (h : Scanned ext serde c)
    (hrun : Relation.ReflTransGen (ScanStep ext serde) c c') : MatchedOnArrival c.db c'.db := by
  obtain ⟨h',harrives⟩ := h.arrives hrun
  have hi := h.intact
  have hi' := h'.intact
  have hgrows := harrives.grows
  refine ⟨fun _ => harrives.mints_joined hi,fun _ => harrives.burns_joined hi,?_,?_,?_,?_⟩
  · exact hi.splits_mints.rest_until hi'.splits_mints hgrows.mints.subset
      fun _ hr => harrives.mints_joined hi hr
  · exact hi.splits_deposits.rest_until hi'.splits_deposits hgrows.deposits.subset
      fun _ hr => (harrives.mints_joined hi hr).imp_right Or.symm
  · exact hi.splits_burns.rest_until hi'.splits_burns hgrows.burns.subset
      fun _ hr => harrives.burns_joined hi hr
  · exact hi.splits_withdrawals.rest_until hi'.splits_withdrawals hgrows.withdrawals.subset
      fun _ hr => (harrives.burns_joined hi hr).imp_right Or.symm

/-- The burn waits for its withdrawal. -/
theorem mintedScan_matched_on_arrival : MatchedOnArrival mintedScan.db auditedScan.db := by
  have hdeposit : Scanned Reference.externals Reference.serde depositScan :=
    Scanned.start.processed Reference.safeA depositOfThree
  have hminted : Scanned Reference.externals Reference.serde mintedScan :=
    hdeposit.synced (some Reference.config) () (by decide +kernel)
  exact scanned_matched_on_arrival Reference.externals Reference.serde mintedScan auditedScan
    hminted (.single (.gnosis mintedScan Reference.safeB burnWithdrawal))

end ReserveAuditor
