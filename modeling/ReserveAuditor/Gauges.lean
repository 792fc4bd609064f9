import ReserveAuditor.BlockCounts
import ReserveAuditor.TransferCounts

/-! The gauges of a process beside the counters in its database, over whole runs of the process. -/
namespace ReserveAuditor
open Txn Relational

variable {ext : Externals} {serde : Serde} {s s' : Db} {α : Type}

/-! ### Databases that processes leave -/

/-- What a process needs of a database, and keeps. -/
structure Ready (s : Db) : Prop where
  synced : ∃ n, SyncedTo n s
  intact : Intact s

theorem Ready.isSome (h : Ready s) : s.counters.isSome = true :=
  let ⟨_,hn⟩ := h.synced
  hn.counters

theorem ready_initial : Ready initialDb := ⟨⟨0,syncedTo_initial⟩,intact_initial⟩

/-- What does not touch the ledger keeps a database ready. -/
theorem ready_of_ledgerKept {x : Conn α} (hintact : Program.Within (Keeps Intact) x)
    (hpanic : ∀ s, ¬x.Panics s)
    (hkept : ∀ s r s', x.attempt.Returns s r s' → LedgerKept s s') :
    Program.Within (Keeps Ready) x := by
  rintro s ⟨⟨n,hn⟩,hi⟩
  obtain ⟨r,s',hr⟩ := Program.attempt_returns (hpanic s)
  have hstate : s' = (x s).state := by
    rw [← hr.2, Program.attempt]
    cases (x s).outcome <;> rfl
  exact ⟨⟨n,(hstate ▸ hkept s r s' hr).syncedTo hn⟩,hintact s hi⟩

theorem ready_matchDeposit (d : GnosisSafeDeposit) (safe : AuditedSafeConfig) :
    Program.Within (Keeps Ready) (AuditedMint.tryMatchDepositWithMint d safe) := by
  refine ready_of_ledgerKept (intact_matchDeposit d safe)
    (fun _ => not_panics_matchDeposit d safe) fun s r s' h => ?_
  obtain ⟨t,c,hc,rfl⟩ := frame_matchDeposit h
  exact ⟨rfl,rfl,rfl,rfl,rfl,rfl,hc⟩

theorem ready_matchMint (m : MintTx) (config : GnosisSafeConfig) :
    Program.Within (Keeps Ready) (AuditedMint.tryMatchMintWithDeposit m config) :=
  ready_of_ledgerKept (intact_matchMint m config) (fun _ => not_panics_matchMint m config)
    fun _ _ _ => ledgerKept_matchMint

theorem ready_matchWithdrawal (w : GnosisSafeWithdrawal) (safe : AuditedSafeConfig) :
    Program.Within (Keeps Ready) (AuditedBurn.tryMatchWithdrawalWithBurn w safe) := by
  refine ready_of_ledgerKept (intact_matchWithdrawal w safe)
    (fun _ => not_panics_matchWithdrawal w safe) fun s r s' h => ?_
  obtain ⟨t,c,hc,rfl⟩ := frame_matchWithdrawal h
  exact ⟨rfl,rfl,rfl,rfl,rfl,rfl,hc⟩

theorem ready_matchBurn (b : BurnTxOut) (config : GnosisSafeConfig) :
    Program.Within (Keeps Ready) (AuditedBurn.tryMatchBurnWithWithdrawal b config) :=
  ready_of_ledgerKept (intact_matchBurn b config) (fun _ => not_panics_matchBurn b config)
    fun _ _ _ => ledgerKept_matchBurn

/-- A sync that does not return leaves the database as it was. -/
theorem ready_syncBlock (ext : Externals) (b : BlockData) : Program.Within (Keeps Ready)
    (syncBlockWithConn ext b.block b.contents b.timestamp) := by
  have hintact : Program.Within (Keeps Intact)
      (syncBlockWithConn ext b.block b.contents b.timestamp) :=
    within_transaction (ledgerParts_intact ext b).syncBlockStages
  rintro s ⟨⟨n,hn⟩,hi⟩
  -- a block that is refused leaves the database as it was
  by_cases hok : ∃ data, (syncBlockStages ext b s).outcome = .ok data
  · obtain ⟨data,hdata⟩ := hok
    have hreturns : (syncBlockWithConn ext b.block b.contents b.timestamp).Returns s data
        (syncBlockWithConn ext b.block b.contents b.timestamp s).state :=
      ⟨congrArg Result.outcome (transaction_of_ok hdata) |>.trans hdata,rfl⟩
    have hsynced := returns_syncBlockWithConn hn.refs hreturns
    obtain ⟨row,-,hrow⟩ := hsynced.counters
    exact ⟨⟨n+1,hsynced.gapless hn.gapless,hsynced.refs,by rw [hrow]; rfl⟩,hintact s hi⟩
  · rw [syncBlockWithConn_eq, transaction_rolledBack _ fun data hdata => hok ⟨data,hdata⟩]
    exact ⟨⟨n,hn⟩,hi⟩

theorem ready_syncAndAudit (ext : Externals) (config : Option GnosisSafeConfig) (b : BlockData) :
    Program.Within (Keeps Ready) (syncAndAudit ext config b) := by
  have haudit (config : GnosisSafeConfig) :
      AuditParts (fun s (_ : List Counters) s' => Keeps Ready s s') config :=
    ⟨fun m => ready_matchMint m config,fun burn => ready_matchBurn burn config⟩
  exact Program.within_savepoint (Program.within_bind (ready_syncBlock ext b)
    fun data => leaves_auditIfConfigured haudit data)

theorem ready_processRawTransaction (safe : AuditedSafeConfig) (serde : Serde)
    (tx : RawGnosisTransaction) :
    Program.Within (Keeps Ready) (safe.processRawTransaction serde tx) := by
  rintro s ⟨⟨n,hn⟩,hi⟩
  have hintact := intact_processRawTransaction safe serde tx s hi
  rcases Program.savepoint_state (safe.recordAndProcess serde tx) s with ⟨_,h⟩ | h
  · have hreturns : (safe.processRawTransaction serde tx).Returns s ()
        (safe.processRawTransaction serde tx s).state := by
      rw [processRawTransaction_eq, Program.returns_expect, Program.expect_state]
      exact (returns_exclusiveTransaction _ _ _ _).mpr h
    exact ⟨⟨n,(ledgerKept_processRawTransaction hreturns).syncedTo hn⟩,hintact⟩
  · rw [processRawTransaction_eq, Program.expect_state, exclusiveTransaction, h]
    exact ⟨⟨n,hn⟩,hi⟩

/-! ### Calls -/

/-- A call on a connection. -/
inductive Call where
  | syncBlock (b : BlockData)
  | matchDeposit (d : GnosisSafeDeposit) (safe : AuditedSafeConfig)
  | matchMint (m : MintTx) (config : GnosisSafeConfig)
  | matchWithdrawal (w : GnosisSafeWithdrawal) (safe : AuditedSafeConfig)
  | matchBurn (b : BurnTxOut) (config : GnosisSafeConfig)

namespace Call

/-- The call, whatever it returns. -/
def run (ext : Externals) : Call → Conn Unit
  | syncBlock b => (syncBlockWithConn ext b.block b.contents b.timestamp).tried
  | matchDeposit d safe => (AuditedMint.tryMatchDepositWithMint d safe).tried
  | matchMint m config => (AuditedMint.tryMatchMintWithDeposit m config).tried
  | matchWithdrawal w safe => (AuditedBurn.tryMatchWithdrawalWithBurn w safe).tried
  | matchBurn b config => (AuditedBurn.tryMatchBurnWithWithdrawal b config).tried

/-- The call increases a counter, for good or not. -/
def Counts (ext : Externals) : Call → Db → Prop
  | syncBlock b, s => Accepts ext b s ∨ b.Counts ext s
  | matchDeposit d safe, s => ¬d.Matchable safe s
  | matchMint m config, s => ¬m.Matchable config s
  | matchWithdrawal w safe, s => ¬w.Matchable safe s
  | matchBurn b config, s => ¬b.Matchable config s

/-- What the call counts stays: a sync that counts something in the block accepts the block. -/
def KeepsCounts (ext : Externals) : Call → Db → Prop
  | syncBlock b, s => b.Counts ext s → Accepts ext b s
  | _, _ => True

theorem ready (ext : Externals) (c : Call) : Program.Within (Keeps Ready) (c.run ext) := by
  cases c with
  | syncBlock b => exact Program.within_tried (ready_syncBlock ext b)
  | matchDeposit d safe => exact Program.within_tried (ready_matchDeposit d safe)
  | matchMint m config => exact Program.within_tried (ready_matchMint m config)
  | matchWithdrawal w safe => exact Program.within_tried (ready_matchWithdrawal w safe)
  | matchBurn b config => exact Program.within_tried (ready_matchBurn b config)

theorem rises (ext : Externals) (c : Call) : Program.Leaves (Rises Db.counters) (c.run ext) := by
  cases c with
  | syncBlock b => exact Program.leaves_tried (rises_syncBlock b)
  | matchDeposit d safe => exact Program.leaves_tried (countsLast_matchDeposit d safe).rises
  | matchMint m config => exact Program.leaves_tried (countsLast_matchMint m config).rises
  | matchWithdrawal w safe => exact Program.leaves_tried (countsLast_matchWithdrawal w safe).rises
  | matchBurn b config => exact Program.leaves_tried (countsLast_matchBurn b config).rises

theorem returns (ext : Externals) (c : Call) (s : Db) : ∃ s', (c.run ext).Returns s () s' := by
  cases c with
  | syncBlock b => exact ⟨_,Program.returns_tried (not_panics_syncBlockWithConn ext b s)⟩
  | matchDeposit d safe => exact ⟨_,Program.returns_tried (not_panics_matchDeposit d safe)⟩
  | matchMint m config => exact ⟨_,Program.returns_tried (not_panics_matchMint m config)⟩
  | matchWithdrawal w safe => exact ⟨_,Program.returns_tried (not_panics_matchWithdrawal w safe)⟩
  | matchBurn b config => exact ⟨_,Program.returns_tried (not_panics_matchBurn b config)⟩

theorem publishes_iff (ext : Externals) (c : Call) (h : Ready s) :
    (c.run ext).Publishes s ↔ c.Counts ext s := by
  have hc := h.isSome
  obtain ⟨n,hn⟩ := h.synced
  cases c with
  | syncBlock b =>
    exact (Program.publishes_tried _ _).trans (publishes_syncBlock_iff ext b hn.refs hn.gapless hc)
  | matchDeposit d safe =>
    rw [run, Program.publishes_tried, (countsLast_matchDeposit d safe).publishes_iff s hc,
      matchDeposit_returns_iff h.intact.mints, Counts]
  | matchMint m config =>
    rw [run, Program.publishes_tried, (countsLast_matchMint m config).publishes_iff s hc,
      matchMint_returns_iff h.intact.mints, Counts]
  | matchWithdrawal w safe =>
    rw [run, Program.publishes_tried, (countsLast_matchWithdrawal w safe).publishes_iff s hc,
      matchWithdrawal_returns_iff h.intact.burns, Counts]
  | matchBurn b config =>
    rw [run, Program.publishes_tried, (countsLast_matchBurn b config).publishes_iff s hc,
      matchBurn_returns_iff h.intact.burns, Counts]

theorem tells_iff (ext : Externals) (c : Call) (h : Ready s) :
    (c.run ext).Tells Db.counters s ↔ c.KeepsCounts ext s := by
  obtain ⟨n,hn⟩ := h.synced
  cases c with
  | syncBlock b =>
    exact (tells_tried _ _).trans (tells_syncBlock_iff_accepts ext b hn.refs hn.gapless hn.counters)
  | matchDeposit d safe =>
    exact iff_of_true ((tells_tried _ _).mpr ((countsLast_matchDeposit d safe).told s)) trivial
  | matchMint m config =>
    exact iff_of_true ((tells_tried _ _).mpr ((countsLast_matchMint m config).told s)) trivial
  | matchWithdrawal w safe =>
    exact iff_of_true ((tells_tried _ _).mpr ((countsLast_matchWithdrawal w safe).told s)) trivial
  | matchBurn b config =>
    exact iff_of_true ((tells_tried _ _).mpr ((countsLast_matchBurn b config).told s)) trivial

end Call

/-! ### Calls in transactions -/

/-- What a caller does: calls in some order, and transactions around some of them, which are
committed or rolled back. -/
inductive Work where
  | call (c : Call)
  | both (first second : Work)
  | transaction (body : Work) (result : Except Error Unit)

namespace Work

def run (ext : Externals) : Work → Conn Unit
  | call c => c.run ext
  | both first second => do
    first.run ext
    second.run ext
  | transaction body result => (exclusiveTransaction do
      body.run ext
      Program.ofExcept result).tried

/-- Some call increases a counter. -/
def Counts (ext : Externals) : Work → Db → Prop
  | call c, s => c.Counts ext s
  | both first second, s => first.Counts ext s ∨ second.Counts ext (first.run ext s).state
  | transaction body _, s => body.Counts ext s

/-- What is counted last stays: a transaction in which something is counted is not rolled back. -/
def KeepsCounts (ext : Externals) : Work → Db → Prop
  | call c, s => c.KeepsCounts ext s
  | both first second, s =>
    (second.Counts ext (first.run ext s).state → second.KeepsCounts ext (first.run ext s).state) ∧
    (¬second.Counts ext (first.run ext s).state → first.KeepsCounts ext s)
  | transaction body (.ok _), s => body.KeepsCounts ext s
  | transaction body (.error _), s => ¬body.Counts ext s

theorem ready (ext : Externals) (w : Work) : Program.Within (Keeps Ready) (w.run ext) := by
  induction w with
  | call c => exact c.ready ext
  | both first second ih₁ ih₂ => exact Program.within_bind ih₁ fun _ => ih₂
  | transaction body result ih =>
    exact Program.within_tried (Program.within_savepoint (Program.within_bind ih fun _ =>
      Program.within_ofExcept _))

theorem rises (ext : Externals) (w : Work) : Program.Leaves (Rises Db.counters) (w.run ext) := by
  induction w with
  | call c => exact c.rises ext
  | both first second ih₁ ih₂ => exact Program.leaves_bind ih₁ fun _ => ih₂
  | transaction body result ih =>
    exact Program.leaves_tried (rises_savepoint (Program.leaves_bind ih fun _ =>
      Program.leaves_ofOutcome _))

theorem returns (ext : Externals) (w : Work) (s : Db) :
    (w.run ext).Returns s () (w.run ext s).state := by
  have hex : ∃ s', (w.run ext).Returns s () s' := by
    induction w generalizing s with
    | call c => exact c.returns ext s
    | both first second ih₁ ih₂ =>
      obtain ⟨s₁,h₁⟩ := ih₁ s
      obtain ⟨s₂,h₂⟩ := ih₂ s₁
      exact ⟨s₂,(Program.returns_bind _ _ _ _ _).mpr ⟨(),s₁,h₁,h₂⟩⟩
    -- the transaction may be rolled back, but it does not panic
    | transaction body result ih =>
      obtain ⟨s₁,h₁⟩ := ih s
      refine ⟨_,Program.returns_tried fun hp => ?_⟩
      simp only [exclusiveTransaction, Program.panics_savepoint, Program.panics_bind] at hp
      rcases hp with hp | ⟨_,t,-,hp⟩
      · exact Program.not_panics_of_returns h₁ hp
      · exact Program.not_panics_ofExcept result t hp
  obtain ⟨s',h⟩ := hex
  rwa [h.2]

theorem publishes_iff (ext : Externals) (w : Work) (h : Ready s) :
    (w.run ext).Publishes s ↔ w.Counts ext s := by
  induction w generalizing s with
  | call c => exact c.publishes_iff ext h
  | both first second ih₁ ih₂ =>
    have hfirst := first.returns ext s
    rw [run, Program.publishes_bind, ih₁ h, Counts, ← ih₂ (first.ready ext s h)]
    refine or_congr_right ⟨?_,fun hsecond => ⟨(),_,hfirst,hsecond⟩⟩
    rintro ⟨_,s₁,hs₁,hsecond⟩
    exact hs₁.2 ▸ hsecond
  -- what the body publishes is published, whether or not it is kept
  | transaction body result ih =>
    simp only [run, Program.publishes_tried, exclusiveTransaction, Program.publishes_savepoint,
      Program.publishes_bind, Program.not_publishes_ofExcept, and_false, exists_false, or_false]
    exact ih h

theorem tells_iff (ext : Externals) (w : Work) (h : Ready s) :
    (w.run ext).Tells Db.counters s ↔ w.KeepsCounts ext s := by
  induction w generalizing s with
  | call c => exact c.tells_iff ext h
  | both first second ih₁ ih₂ =>
    have hready := first.ready ext s h
    refine (tells_bind_iff (first.returns ext s) (second.rises ext) h.isSome hready.isSome).trans ?_
    rw [KeepsCounts, ih₁ h, ih₂ hready, second.publishes_iff ext hready]
  | transaction body result ih =>
    have hbody := body.returns ext s
    rw [run, tells_tried, exclusiveTransaction]
    cases result with
    -- committed: told when the body is
    | ok u =>
      have hall : (do
          body.run ext
          Program.ofExcept (.ok u) : Conn Unit).Returns s u (body.run ext s).state :=
        (Program.returns_bind _ _ _ _ _).mpr
          ⟨(),_,hbody,(Program.returns_ofExcept _ _ _ _).mpr ⟨rfl,rfl⟩⟩
      rw [tells_savepoint_of_returns hall, KeepsCounts, ← ih h]
      refine (tells_bind_iff hbody (Program.leaves_ofOutcome _) h.isSome
        (body.ready ext s h).isSome).trans ?_
      simp
    -- rolled back: told when the body had published nothing
    | error e =>
      have hall : (do
          body.run ext
          Program.ofExcept (.error e) : Conn Unit).Fails s e (body.run ext s).state :=
        (Program.fails_bind _ _ _ _ _).mpr (Or.inr
          ⟨(),_,hbody,(Program.fails_ofExcept _ _ _ _).mpr ⟨rfl,rfl⟩⟩)
      rw [tells_savepoint_of_fails hall (Program.leaves_bind (body.rises ext) fun _ =>
        Program.leaves_ofOutcome _) h.isSome, KeepsCounts, ← body.publishes_iff ext h]
      simp

end Work

/-! ### Processes -/

/-- What happens in a process between two moments when no transaction is open. -/
inductive Action where
  | work (w : Work)
  /-- The main loop syncs a block and audits it. -/
  | ledger (config : Option GnosisSafeConfig) (b : BlockData)
  /-- `process_transactions` processes one of its transactions; a whole call is the subject of
  `perform_processTransactions`. A panic that leaves it open (`AuditedSafeConfig.LeavesOpen`) is
  rolled back here; in the process no moment without an open transaction follows, so that state is
  outside of what is said here. -/
  | gnosis (safe : AuditedSafeConfig) (tx : RawGnosisTransaction)

namespace Action

def run (ext : Externals) (serde : Serde) : Action → Conn Unit
  | work w => w.run ext
  | ledger config b => syncAndAudit ext config b
  | gnosis safe tx => safe.processRawTransaction serde tx

/-- What the action counts last stays in the database. -/
def KeepsCounts (ext : Externals) (serde : Serde) : Action → Db → Prop
  | work w, s => w.KeepsCounts ext s
  | ledger _ b, s => b.Counts ext s → Accepts ext b s
  | gnosis safe tx, s => CountsTransfers safe serde tx s → Digestible safe serde s [tx]

theorem ready (ext : Externals) (serde : Serde) (a : Action) :
    Program.Within (Keeps Ready) (a.run ext serde) := by
  cases a with
  | work w => exact w.ready ext
  | ledger config b => exact ready_syncAndAudit ext config b
  | gnosis safe tx => exact ready_processRawTransaction safe serde tx

theorem tells_iff (ext : Externals) (serde : Serde) (a : Action) (h : Ready s) :
    (a.run ext serde).Tells Db.counters s ↔ a.KeepsCounts ext serde s := by
  cases a with
  | work w => exact w.tells_iff ext h
  | ledger config b =>
    obtain ⟨n,hn⟩ := h.synced
    exact (tells_syncAndAudit_iff config b hn.counters).trans
      (tells_syncBlock_iff_accepts ext b hn.refs hn.gapless hn.counters)
  | gnosis safe tx => exact tells_processRawTransaction_iff_digestible safe serde tx h.intact h.isSome

end Action

/-- The database that a process has open, and its gauges. -/
structure Process where
  db : Db
  gauges : Counters

namespace Process

/-- What is published last is what the gauges are set to, even if it is rolled back. -/
def perform (p : Process) (x : Conn Unit) : Process :=
  ⟨(x p.db).state,(x p.db).log.getLastD p.gauges⟩

/-- A process starts: its gauges are 0, and it opens a database. -/
def start (s : Db) : Process := perform ⟨s,fun _ => 0⟩ newFromPath

def run (ext : Externals) (serde : Serde) (p : Process) (actions : List Action) : Process :=
  actions.foldl (fun p a => p.perform (a.run ext serde)) p

/-- Every gauge is equal to its counter. -/
def Agrees (p : Process) : Prop := ∀ c, p.gauges c = Counters.get p.db c

theorem run_concat (p : Process) (actions : List Action) (a : Action) :
    p.run ext serde (actions ++ [a]) = (p.run ext serde actions).perform (a.run ext serde) := by
  simp only [run, List.foldl_append, List.foldl_cons, List.foldl_nil]

theorem ready_run {p : Process} (h : Ready p.db) (actions : List Action) :
    Ready (p.run ext serde actions).db := by
  induction actions using List.reverseRecOn with
  | nil => exact h
  | append_singleton actions a ih =>
    rw [run_concat]
    exact a.ready ext serde _ ih

theorem perform_bind {p : Process} {x : Conn Unit} {f : Unit → Conn Unit}
    (h : (x p.db).outcome = .ok ()) : p.perform (x >>= f) = (p.perform x).perform (f ()) := by
  simp only [perform, Program.bind_run, Program.bind, h, List.getLastD_eq_getLast?,
    List.getLast?_append, Option.getD_or]

/-- What does not return is the last thing that is done. -/
theorem perform_bind_stopped {p : Process} {x : Conn Unit} {f : Unit → Conn Unit}
    (h : (x p.db).outcome ≠ .ok ()) : p.perform (x >>= f) = p.perform x := by
  simp only [perform, Program.bind_run, Program.bind]
  cases ho : (x p.db).outcome with
  | ok u => exact absurd ho h
  | err e => rfl
  | panic m => rfl

/-- A call with many transactions is one action after the other, up to the first that panics. -/
theorem perform_processTransactions (ext : Externals) (serde : Serde) (safe : AuditedSafeConfig)
    (txs : List RawGnosisTransaction) (p : Process) : ∃ before, before <+: txs ∧
      p.perform (safe.processTransactions serde txs) =
        p.run ext serde (before.map (Action.gnosis safe)) := by
  unfold AuditedSafeConfig.processTransactions
  induction txs generalizing p with
  | nil => exact ⟨[],List.prefix_rfl,rfl⟩
  | cons tx txs ih =>
    by_cases h : (safe.processRawTransaction serde tx p.db).outcome = .ok ()
    · obtain ⟨before,hpre,hrun⟩ := ih (p.perform (safe.processRawTransaction serde tx))
      exact ⟨tx :: before,List.cons_prefix_cons.mpr ⟨rfl,hpre⟩,(perform_bind h).trans hrun⟩
    · exact ⟨[tx],⟨txs,rfl⟩,perform_bind_stopped h⟩

/-- Gauges that agree still do after a program exactly if it tells the counters. -/
theorem agrees_perform_iff {p : Process} {x : Conn Unit} (h : p.Agrees)
    (hc : p.db.counters.isSome = true) (hc' : (x p.db).state.counters.isSome = true) :
    (p.perform x).Agrees ↔ x.Tells Db.counters p.db := by
  obtain ⟨row,hrow⟩ := Option.isSome_iff_exists.mp hc
  obtain ⟨row',hrow'⟩ := Option.isSome_iff_exists.mp hc'
  have hgauges : p.gauges = row := funext fun c => by rw [h c, Counters.get, hrow, Option.getD_some]
  simp only [Agrees, perform, Program.Tells, Told, Counters.get, hrow, hrow', hgauges,
    Option.getD_some, Option.some.injEq, forall_eq']
  exact ⟨fun hall => (funext hall).symm,fun he c => by rw [he]⟩

theorem agrees_step_iff {p : Process} (h : p.Agrees) (hp : Ready p.db) (a : Action) :
    (p.perform (a.run ext serde)).Agrees ↔ a.KeepsCounts ext serde p.db :=
  (agrees_perform_iff h hp.isSome (a.ready ext serde _ hp).isSome).trans (a.tells_iff ext serde hp)

end Process

/-- A new database, or one that processes before have left. -/
inductive Populated (ext : Externals) (serde : Serde) : Db → Prop where
  | new : Populated ext serde Db.empty
  | left {s : Db} (before : Populated ext serde s) (actions : List Action) :
      Populated ext serde ((Process.start s).run ext serde actions).db

theorem newFromPath_log (s : Db) : (newFromPath s).log = [] := by
  have hquiet : ¬newFromPath.Publishes s := by
    rw [newFromPath, Counters.ensureExists, publishes_transaction, Program.publishes_bind]
    rintro (h | ⟨row,_,-,h⟩)
    · exact Program.not_publishes_query _ _ h
    · cases row with
      | none => exact Program.not_publishes_update _ _ h
      | some row => exact Program.not_publishes_pure _ _ h
  exact not_not.mp hquiet

/-- The row of counters that is made for a new database is 0. -/
theorem get_newFromPath (s : Db) : Counters.get (newFromPath s).state = Counters.get s := by
  cases hrow : s.counters with
  | some row => rw [newFromPath_state (by rw [hrow]; rfl)]
  | none =>
    have hr : newFromPath.Returns s () { s with counters := some fun _ => 0 } := by
      refine (returns_transaction _ _ _ _).mpr ((Program.returns_bind _ _ _ _ _).mpr
        ⟨_,s,(Program.returns_query _ _ _ _).mpr ⟨rfl,rfl⟩,?_⟩)
      rw [hrow]
      exact (Program.returns_update _ _ _ _).mpr rfl
    rw [hr.2, Counters.get, Counters.get, hrow]
    rfl

theorem Populated.ready (h : Populated ext serde s) : Ready (Process.start s).db := by
  induction h with
  | new => exact ready_initial
  | @left t before actions ih =>
    have hrun : Ready ((Process.start t).run ext serde actions).db :=
      Process.ready_run ih actions
    rwa [Process.start, Process.perform, newFromPath_state hrun.isSome]

/-- A process starts with gauges that agree exactly if its database has counted nothing. -/
theorem agrees_start_iff (s : Db) : (Process.start s).Agrees ↔ ∀ c, Counters.get s c = 0 := by
  simp only [Process.Agrees, Process.start, Process.perform, newFromPath_log, get_newFromPath,
    List.getLastD_nil]
  exact forall_congr' fun c => eq_comm

/-- In a run of a process the gauges agree with the counters whenever no transaction is open exactly
if the database had counted nothing at the start, and no action counts last what it does not keep. -/
theorem gauges_agree_iff (ext : Externals) (serde : Serde) (s : Db) (h : Populated ext serde s)
    (actions : List Action) :
    (∀ before, before <+: actions → ((Process.start s).run ext serde before).Agrees) ↔
      (∀ c, Counters.get s c = 0) ∧ ∀ before a, before ++ [a] <+: actions →
        a.KeepsCounts ext serde ((Process.start s).run ext serde before).db := by
  have hready (before : List Action) : Ready ((Process.start s).run ext serde before).db :=
    Process.ready_run h.ready before
  constructor
  · intro hall
    refine ⟨(agrees_start_iff s).mp (hall [] ⟨actions,rfl⟩),fun before a hpre => ?_⟩
    have hbefore := hall before ((List.prefix_append before [a]).trans hpre)
    have hafter := hall _ hpre
    rw [Process.run_concat] at hafter
    exact (Process.agrees_step_iff hbefore (hready before) a).mp hafter
  · rintro ⟨hzero,hkeeps⟩ before
    -- the gauges agree from one action to the next
    induction before using List.reverseRecOn with
    | nil => exact fun _ => (agrees_start_iff s).mpr hzero
    | append_singleton before a ih =>
      intro hpre
      have hbefore := ih ((List.prefix_append before [a]).trans hpre)
      rw [Process.run_concat]
      exact (Process.agrees_step_iff hbefore (hready before) a).mpr (hkeeps before a hpre)

/-! ### A sync that is counted, and what is lost of it -/

/-- The database of a process that has synced a block. -/
def mintBlockDb : Db := ((Process.start Db.empty).run Reference.externals Reference.serde
  [.ledger none mintBlock]).db

theorem mintBlock_gauges_agree : Populated Reference.externals Reference.serde Db.empty ∧
    ∀ before, before <+: [Action.ledger none mintBlock] →
      ((Process.start Db.empty).run Reference.externals Reference.serde before).Agrees := by
  have hok : (syncBlockWithConn Reference.externals mintBlock.block mintBlock.contents
      mintBlock.timestamp initialDb).outcome.isOk = true := by
    decide +kernel
  obtain ⟨data,hdata⟩ := (Outcome.isOk_iff _).mp hok
  have haccepts : Accepts Reference.externals mintBlock initialDb :=
    (syncBlockWithConn_returns_iff _ _ configRefs_initial gapless_initial rfl).mp
      ⟨data,_,hdata,rfl⟩
  refine ⟨.new,(gauges_agree_iff Reference.externals Reference.serde Db.empty .new _).mpr
    ⟨fun _ => rfl,fun before a hpre => ?_⟩⟩
  -- there is one action only
  obtain ⟨rfl,rfl⟩ : before = [] ∧ a = .ledger none mintBlock := by
    have hlength := hpre.length_le
    obtain rfl : before = [] := by simpa using hlength
    exact ⟨rfl,by simpa using hpre⟩
  exact fun _ => haccepts

/-- The gauges are behind after a restart, and ahead after a transfer of ether, and after a sync that
a caller rolls back. -/
theorem gauges_disagree :
    (Populated Reference.externals Reference.serde mintBlockDb ∧
      ¬(Process.start mintBlockDb).Agrees) ∧
    Populated Reference.externals Reference.serde Db.empty ∧
    ¬((Process.start Db.empty).run Reference.externals Reference.serde
      [.gnosis Reference.safeA plainEther]).Agrees ∧
    ¬((Process.start Db.empty).run Reference.externals Reference.serde
      [.work (.transaction (.call (.syncBlock mintBlock)) (.error .notFound))]).Agrees := by
  -- each time one counter shows the difference
  refine ⟨⟨.left .new _,fun h => ?_⟩,.new,fun h => ?_,fun h => ?_⟩
  · have hrestart : (Process.start mintBlockDb).gauges .numBlocksSynced ≠
        Counters.get (Process.start mintBlockDb).db .numBlocksSynced := by
      decide +kernel
    exact hrestart (h _)
  · exact absurd (h .numInvalidEthereumTransactions) (by decide +kernel)
  · exact absurd (h .numBlocksSynced) (by decide +kernel)

end ReserveAuditor
