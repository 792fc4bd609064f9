import ReserveAuditor.Auditor
import ReserveAuditor.SyncEffect
import ReserveAuditor.GnosisEffect

/-! Invariants of the audit tables over all interleavings of the threads. -/
namespace ReserveAuditor
open Txn Relational Matching

/-! ### What a step can do -/

variable {config : GnosisSafeConfig} {s s' : Db}

/-- An audit loop is one search after another. -/
theorem returns_auditLoop {L R I J K γ : Type} [DecidableEq I] [DecidableEq J] [DecidableEq K]
    {S : Sides L R I J K} {board : Db → Board L R I J} {Frame : Db → Db → Prop}
    {search : L → Conn γ} (hrefl : ∀ s, Frame s s)
    (htrans : ∀ s s₁ s', Frame s s₁ → Frame s₁ s' → Frame s s')
    (hsearch : ∀ l s s' r, Board.Sound S (board s) → l ∈ (board s).lefts →
      (search l).attempt.Returns s r s' → board s' = (board s).matchLeft S l ∧ Frame s s')
    (ls : List L) {s s' : Db} {u : Unit} (hs : Board.Sound S (board s))
    (hl : ∀ l ∈ ls, l ∈ (board s).lefts)
    (h : (Program.forEach ls fun l => do
      let _ ← (search l).attempt
      pure ()).Returns s u s') :
    board s' = ls.foldl (Board.matchLeft S) (board s) ∧ Frame s s' := by
  induction ls generalizing s with
  | nil =>
    rw [(Program.returns_forEach_nil _ s s' u).mp h]
    exact ⟨rfl,hrefl s⟩
  | cons l ls ih =>
    obtain ⟨s₁,hone,hrest⟩ := (Program.returns_forEach_cons _ _ _ s s' u).mp h
    simp only [Program.returns_bind, Program.returns_pure] at hone
    obtain ⟨r,_,hr,-,rfl⟩ := hone
    have hmem := hl l List.mem_cons_self
    obtain ⟨hb,hf⟩ := hsearch l s s₁ r hs hmem hr
    -- a search adds no member, so the others are still there for their turn
    have hl₁ : ∀ x ∈ ls, x ∈ (board s₁).lefts := by
      intro x hx
      rw [hb, Board.matchLeft_lefts]
      exact hl x (List.mem_cons_of_mem l hx)
    obtain ⟨hb',hf'⟩ := ih (hb ▸ hs.matchLeft hmem) hl₁ hrest
    refine ⟨?_,htrans s s₁ s' hf hf'⟩
    rw [hb', hb]
    rfl

theorem returns_auditMints (ms : List MintTx) {u : Unit}
    (hs : Board.Sound (mintSides config) (mintBoard s)) (hm : ∀ m ∈ ms, m ∈ s.mintTxs.rows)
    (h : (Program.forEach ms fun mintTx => do
      let _ ← Program.attempt (AuditedMint.tryMatchMintWithDeposit mintTx config)
      pure ()).Returns s u s') :
    mintBoard s' = ms.foldl (Board.matchLeft (mintSides config)) (mintBoard s) ∧ MintFrame s s' := by
  refine returns_auditLoop (fun s => ⟨s.auditedMints,s.counters,.refl _,rfl⟩) ?_ ?_ ms hs hm h
  · rintro s s₁ s' ⟨_,_,hc,rfl⟩ ⟨t',c',hc',rfl⟩
    exact ⟨t',c',hc.trans hc',rfl⟩
  · exact fun m s s' r hs hm hr => attempt_matchMint (mintRefs_of_sound hs) hm hr

theorem returns_auditBurns (bs : List BurnTxOut) {u : Unit}
    (hs : Board.Sound (burnSides config) (burnBoard s)) (hm : ∀ b ∈ bs, b ∈ s.burnTxOuts.rows)
    (h : (Program.forEach bs fun burnTxOut => do
      let _ ← Program.attempt (AuditedBurn.tryMatchBurnWithWithdrawal burnTxOut config)
      pure ()).Returns s u s') :
    burnBoard s' = bs.foldl (Board.matchLeft (burnSides config)) (burnBoard s) ∧ BurnFrame s s' := by
  refine returns_auditLoop (fun s => ⟨s.auditedBurns,s.counters,.refl _,rfl⟩) ?_ ?_ bs hs hm h
  · rintro s s₁ s' ⟨_,_,hc,rfl⟩ ⟨t',c',hc',rfl⟩
    exact ⟨t',c',hc.trans hc',rfl⟩
  · exact fun b s s' r hs hb hr => attempt_matchBurn (burnRefs_of_sound hs) hb hr

/-- The ledger loop synced a block and audited it. -/
structure LedgerMoved (ext : Externals) (config : GnosisSafeConfig) (b : BlockData) (s s' : Db) :
    Prop where
  moved : ∃ data s₁, BlockSynced ext b s data s₁ ∧
    (∃ t u c, Counters.SameLedger s₁.counters c ∧
      s' = { s₁ with auditedMints := t, auditedBurns := u, counters := c }) ∧
    mintBoard s' = (mintBoard s).arriveLefts (mintSides config) data.mintTxs ∧
    burnBoard s' = (burnBoard s).arriveLefts (burnSides config) data.burnTxOuts

/-! ### The invariant -/

/-- Both boards are sound, all that matches is matched between mints and deposits, and
deposits stand for transfers into configured safes. -/
structure Audited (config : GnosisSafeConfig) (s : Db) : Prop where
  mints : Board.Sound (mintSides config) (mintBoard s)
  burns : Board.Sound (burnSides config) (burnBoard s)
  complete : Board.Complete (mintSides config) (mintBoard s) []
  deposits : ∀ d ∈ s.gnosisSafeDeposits.rows, ∃ safe ∈ config.safes, DepositValid safe d
  refs : ConfigRefs s

theorem mint_keysL (config : GnosisSafeConfig) (s : Db) :
    Board.KeysL (mintSides config) (mintBoard s) := by
  intro m hm m' hm' hk
  by_contra hne
  have hk' : m.nonceHex = m'.nonceHex := hk
  -- the nonce column is unique
  rcases s.mintTxs.clash_of_ne hm hm' hne with h | h <;> simp [Record.clash, hk'] at h

theorem burn_keysL (config : GnosisSafeConfig) (s : Db) :
    Board.KeysL (burnSides config) (burnBoard s) := by
  intro b hb b' hb' hk
  by_contra hne
  have hk' : b.publicKeyHex = b'.publicKeyHex := hk
  -- the column of public keys is unique
  rcases s.burnTxOuts.clash_of_ne hb hb' hne with h | h <;> simp [Record.clash, hk'] at h

/-- The nonce expected of a mint tells the hash of the deposit. -/
theorem nonce_injective {safe safe' : AuditedSafeConfig} {d d' : GnosisSafeDeposit}
    (h : DepositValid safe d) (h' : DepositValid safe' d')
    (hk : d.expectedMcMintTxNonceHex = d'.expectedMcMintTxNonceHex) : d.ethTxHash = d'.ethTxHash := by
  rw [h.nonce, h'.nonce] at hk
  exact mintTxNonceBytes_injective (Hex.encode_injective hk)

theorem Audited.keysR (h : Audited config s) : Board.KeysR (mintSides config) (mintBoard s) := by
  intro d hd d' hd' hk
  by_contra hne
  obtain ⟨safe,-,hv⟩ := h.deposits d hd
  obtain ⟨safe',-,hv'⟩ := h.deposits d' hd'
  -- one nonce means one transaction, and a transaction has at most one deposit
  have hh := nonce_injective hv hv' hk
  rcases s.gnosisSafeDeposits.clash_of_ne hd hd' hne with h | h <;> simp [Record.clash, hh] at h

/-! ### Ledger steps -/

theorem mint_names {old new : List MintTx} (h : s.mintTxs.rows = old ++ new) :
    (∀ m ∈ old ++ new, ∀ m' ∈ old ++ new, m.id = m'.id → m = m') ∧ ∀ m ∈ new, m ∉ old := by
  refine ⟨fun m hm m' hm' => ?_,fun m hm ho => Table.id_ne_of_append h ho hm rfl⟩
  rw [← h] at hm hm'
  exact s.mintTxs.eq_of_id_eq hm hm'

theorem burn_names {old new : List BurnTxOut} (h : s.burnTxOuts.rows = old ++ new) :
    (∀ b ∈ old ++ new, ∀ b' ∈ old ++ new, b.id = b'.id → b = b') ∧ ∀ b ∈ new, b ∉ old := by
  refine ⟨fun b hb b' hb' => ?_,fun b hb ho => Table.id_ne_of_append h ho hb rfl⟩
  rw [← h] at hb hb'
  exact s.burnTxOuts.eq_of_id_eq hb hb'

variable {ext : Externals} {serde : Serde} {b : BlockData} {data : SyncBlockData} {s₁ : Db}

theorem BlockSynced.mintBoard (h : BlockSynced ext b s data s₁) :
    mintBoard s₁ = (mintBoard s).addLefts data.mintTxs := by
  simp only [ReserveAuditor.mintBoard, Board.addLefts, h.mints, h.gnosis.deposits,
    h.gnosis.auditedMints]

theorem BlockSynced.burnBoard (h : BlockSynced ext b s data s₁) :
    burnBoard s₁ = (burnBoard s).addLefts data.burnTxOuts := by
  simp only [ReserveAuditor.burnBoard, Board.addLefts, h.burns, h.gnosis.withdrawals,
    h.gnosis.auditedBurns]

theorem BlockSynced.mintSound (h : BlockSynced ext b s data s₁)
    (hs : Board.Sound (mintSides config) (ReserveAuditor.mintBoard s)) :
    Board.Sound (mintSides config) (ReserveAuditor.mintBoard s₁) := by
  obtain ⟨hn,hd⟩ := mint_names h.mints
  rw [h.mintBoard]
  exact hs.addLefts hn hd

theorem BlockSynced.burnSound (h : BlockSynced ext b s data s₁)
    (hs : Board.Sound (burnSides config) (ReserveAuditor.burnBoard s)) :
    Board.Sound (burnSides config) (ReserveAuditor.burnBoard s₁) := by
  obtain ⟨hn,hd⟩ := burn_names h.burns
  rw [h.burnBoard]
  exact hs.addLefts hn hd

theorem BlockSynced.mem_mints (h : BlockSynced ext b s data s₁) :
    ∀ m ∈ data.mintTxs, m ∈ s₁.mintTxs.rows := by
  rw [h.mints]
  exact fun m hm => List.mem_append_right _ hm

theorem BlockSynced.mem_burns (h : BlockSynced ext b s data s₁) :
    ∀ b ∈ data.burnTxOuts, b ∈ s₁.burnTxOuts.rows := by
  rw [h.burns]
  exact fun b hb => List.mem_append_right _ hb

theorem returns_syncAndAudit {u : Unit} (hi : Audited config s)
    (h : (syncAndAudit ext (some config) b).Returns s u s') : LedgerMoved ext config b s s' := by
  simp only [syncAndAudit, returns_exclusiveTransaction, Program.returns_bind, auditIfConfigured,
    auditBlockData] at h
  obtain ⟨data,s₁,hsync,_,s₂,hmints,hburns⟩ := h
  have hsynced := returns_syncBlockWithConn hi.refs hsync
  obtain ⟨hmb,t,c,hc,rfl⟩ := returns_auditMints data.mintTxs (hsynced.mintSound hi.mints)
    hsynced.mem_mints hmints
  -- auditing the mints leaves the burns and their matches as they were
  have hbs : Board.Sound (burnSides config) (burnBoard { s₁ with auditedMints := t, counters := c }) :=
    hsynced.burnSound hi.burns
  obtain ⟨hbb,t',c',hc',rfl⟩ := returns_auditBurns data.burnTxOuts hbs hsynced.mem_burns hburns
  rw [hsynced.mintBoard] at hmb
  have hbb' : burnBoard _ = data.burnTxOuts.foldl (Board.matchLeft (burnSides config))
    (burnBoard s₁) := hbb
  rw [hsynced.burnBoard] at hbb'
  exact ⟨data,s₁,hsynced,⟨t,t',c',hc.trans hc',rfl⟩,hmb,hbb'⟩

theorem LedgerMoved.audited (h : LedgerMoved ext config b s s') (hi : Audited config s) :
    Audited config s' := by
  obtain ⟨data,s₁,hsynced,⟨t,t',c,-,rfl⟩,hm,hb⟩ := h.moved
  obtain ⟨hmn,hmd⟩ := mint_names hsynced.mints
  obtain ⟨hbn,hbd⟩ := burn_names hsynced.burns
  have hkl : Board.KeysL (mintSides config) ((mintBoard s).addLefts data.mintTxs) := by
    rw [← hsynced.mintBoard]
    exact mint_keysL config s₁
  exact {
    mints := by
      rw [hm]
      exact hi.mints.arriveLefts hmn hmd
    burns := by
      rw [hb]
      exact hi.burns.arriveLefts hbn hbd
    complete := by
      rw [hm]
      exact hi.complete.arriveLefts (hi.mints.addLefts hmn hmd) hkl hi.keysR
    deposits := by
      intro d hd
      change d ∈ s₁.gnosisSafeDeposits.rows at hd
      rw [hsynced.gnosis.deposits] at hd
      exact hi.deposits d hd
    refs := ⟨hsynced.refs.ofMint,hsynced.refs.ofConfig⟩ }

/-! ### Gnosis steps -/

theorem DepositAdded.audited {safe : AuditedSafeConfig} {d : GnosisSafeDeposit}
    (h : DepositAdded safe s d s') (hd : config.Distinct) (hsafe : safe ∈ config.safes)
    (hvalid : DepositValid safe d) (hi : Audited config s) : Audited config s' := by
  have hm := h.board config hd hsafe (mintRefs_of_sound hi.mints)
  have hrows := h.rows
  have hn : ∀ d' ∈ (mintBoard s).rights, (mintSides config).nameR d' ≠ (mintSides config).nameR d :=
    fun d' hd' => Table.id_ne_of_append hrows hd' (List.mem_singleton.mpr rfl)
  -- no stored deposit expects the nonce of the new one
  have hk : ∀ d' ∈ (mintBoard s).rights, (mintSides config).keyR d' ≠ (mintSides config).keyR d := by
    intro d' hd' hk
    obtain ⟨safe',-,hv'⟩ := hi.deposits d' hd'
    have hh := nonce_injective hv' hvalid hk
    have hc := Table.clash_of_append hrows hd' (List.mem_singleton.mpr rfl)
    simp [Record.clash, hh] at hc
  obtain ⟨t,t',c,-,rfl⟩ := h.frame
  exact {
    mints := by
      rw [hm]
      exact hi.mints.arriveRight hn
    burns := hi.burns
    complete := by
      rw [hm]
      exact hi.complete.arriveRight hi.mints hn (mint_keysL config s) hk
    deposits := by
      intro x hx
      rw [hrows] at hx
      rcases List.mem_append.mp hx with hx | hx
      · exact hi.deposits x hx
      · rw [List.mem_singleton.mp hx]
        exact ⟨safe,hsafe,hvalid⟩
    refs := ⟨hi.refs.ofMint,hi.refs.ofConfig⟩ }

theorem DepositsAdded.audited {safe : AuditedSafeConfig} {ds : List GnosisSafeDeposit}
    (h : DepositsAdded safe s ds s') (hd : config.Distinct) (hsafe : safe ∈ config.safes)
    (hi : Audited config s) : Audited config s' := by
  induction h with
  | nil counted =>
    obtain ⟨c,-,rfl⟩ := counted
    exact ⟨hi.mints,hi.burns,hi.complete,hi.deposits,hi.refs.ofMint,hi.refs.ofConfig⟩
  | cons n valid head _ ih => exact ih (head.audited hd hsafe (valid.withId n) hi)

theorem WithdrawalAdded.audited {safe : AuditedSafeConfig} {w : GnosisSafeWithdrawal}
    (h : WithdrawalAdded safe s w s') (hd : config.Distinct) (hsafe : safe ∈ config.safes)
    (hi : Audited config s) : Audited config s' := by
  have hb := h.board config hd hsafe (burnRefs_of_sound hi.burns)
  have hn : ∀ w' ∈ (burnBoard s).rights, (burnSides config).nameR w' ≠ (burnSides config).nameR w :=
    fun w' hw' => Table.id_ne_of_append h.rows hw' (List.mem_singleton.mpr rfl)
  obtain ⟨t,t',c,-,rfl⟩ := h.frame
  refine ⟨hi.mints,?_,hi.complete,hi.deposits,hi.refs.ofMint,hi.refs.ofConfig⟩
  rw [hb]
  exact hi.burns.arriveRight hn

theorem Processed.audited {safe : AuditedSafeConfig} {tx : Transaction}
    (h : Processed safe s tx s') (hd : config.Distinct) (hsafe : safe ∈ config.safes)
    (hi : Audited config s) : Audited config s' := by
  cases h with
  | deposits added _ => exact added.audited hd hsafe hi
  | withdrawal _ _ _ _ _ added => exact added.audited hd hsafe hi

theorem Audited.recordHash (hi : Audited config s) (tx : RawGnosisTransaction) (hash : EthTxHash) :
    Audited config (recordHash serde tx hash s) :=
  ⟨hi.mints,hi.burns,hi.complete,hi.deposits,hi.refs.ofMint,hi.refs.ofConfig⟩

theorem audited_processRawTransaction {safe : AuditedSafeConfig} {tx : RawGnosisTransaction}
    {u : Unit} (hd : config.Distinct) (hsafe : safe ∈ config.safes) (hi : Audited config s)
    (h : (safe.processRawTransaction serde tx).Returns s u s') : Audited config s' := by
  obtain ⟨hash,-,⟨-,rfl⟩ | ⟨-,decoded,-,hp⟩⟩ := returns_processRawTransaction h
  · exact hi
  · exact hp.audited hd hsafe (hi.recordHash tx hash)

/-! ### Runs -/

/-- A step commits what its program returns with, or changes nothing. -/
theorem exec_cases (ext : Externals) (serde : Serde) (step : Step config) (s : Db) :
    (step.program ext serde).Returns s () (step.exec ext serde s) ∨ step.exec ext serde s = s := by
  cases step with
  | ledger b =>
    simp only [Step.exec, Step.program, syncAndAudit, returns_exclusiveTransaction]
    -- both loops run each step in one exclusive transaction
    refine (Program.savepoint_state _ s).imp_left ?_
    rintro ⟨_,h⟩
    exact h
  | gnosis safe hsafe tx =>
    simp only [Step.exec, Step.program, AuditedSafeConfig.processRawTransaction,
      Program.expect_state, Program.returns_expect, returns_exclusiveTransaction]
    refine (Program.savepoint_state _ s).imp_left ?_
    rintro ⟨_,h⟩
    exact h

theorem initialDb_eq : initialDb = { Db.empty with counters := some fun _ => 0 } := rfl

theorem configRefs_initial : ConfigRefs initialDb := by
  constructor <;> simp [initialDb_eq, Db.empty, Table.empty]

theorem audited_initial : Audited config initialDb := by
  have hm : mintBoard initialDb = ⟨[],[],[]⟩ := rfl
  have hb : burnBoard initialDb = ⟨[],[],[]⟩ := rfl
  refine ⟨?_,?_,?_,by simp [initialDb_eq, Db.empty, Table.empty],configRefs_initial⟩
  · rw [hm]
    constructor <;> simp
  · rw [hb]
    constructor <;> simp
  · rw [hm]
    intro m hmem
    simp at hmem

theorem run_append (steps : List (Step config)) (step : Step config) :
    Step.run ext serde (steps ++ [step]) = step.exec ext serde (Step.run ext serde steps) := by
  simp only [Step.run, List.foldl_append, List.foldl_cons, List.foldl_nil]

/-- What holds of a new database and is kept by every step that commits holds after every
interleaving of the threads. -/
theorem run_induction (ext : Externals) (serde : Serde) {I : Db → Prop}
    (steps : List (Step config)) (h₀ : I initialDb)
    (hstep : ∀ before step, before ++ [step] <+: steps → ∀ s', I (Step.run ext serde before) →
      (step.program ext serde).Returns (Step.run ext serde before) () s' → I s') :
    I (Step.run ext serde steps) := by
  induction steps using List.reverseRecOn with
  | nil => exact h₀
  | append_singleton steps step ih =>
    have hs := ih fun before x hx => hstep before x (hx.trans (List.prefix_append _ _))
    rw [run_append]
    -- a step that does not commit leaves the database of the steps before
    rcases exec_cases ext serde step (Step.run ext serde steps) with h | h
    · exact hstep steps step List.prefix_rfl _ hs h
    · rw [h]
      exact hs

theorem audited_step (hd : config.Distinct) (step : Step config) (hi : Audited config s)
    (h : (step.program ext serde).Returns s () s') : Audited config s' := by
  cases step with
  | ledger b => exact (returns_syncAndAudit hi h).audited hi
  | gnosis safe hsafe tx => exact audited_processRawTransaction hd hsafe hi h

theorem audited_run (hd : config.Distinct) (steps : List (Step config)) :
    Audited config (Step.run ext serde steps) :=
  run_induction ext serde steps audited_initial fun _ step _ _ hi h => audited_step hd step hi h

end ReserveAuditor
