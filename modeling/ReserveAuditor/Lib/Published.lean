import ReserveAuditor.Lib.Trace
import Mathlib.Order.Basic

/-! Programs that publish what the store says. What was published stays when the store is put back,
so what was published last may no longer be what the store says. -/
namespace Txn
namespace Program
variable {σ ω ε α β : Type}

/-! ### Runs that publish -/

/-- From `s` the program publishes something, however it ends. -/
def Publishes (x : Program σ ω ε α) (s : σ) : Prop := (x s).log ≠ []

@[simp] theorem not_publishes_pure (a : α) (s : σ) : ¬(pure a : Program σ ω ε α).Publishes s :=
  not_not_intro rfl

@[simp] theorem not_publishes_fail (e : ε) (s : σ) : ¬(fail e : Program σ ω ε α).Publishes s :=
  not_not_intro rfl

@[simp] theorem not_publishes_ofOutcome (o : Outcome ε α) (s : σ) :
    ¬(ofOutcome o : Program σ ω ε α).Publishes s := not_not_intro rfl

@[simp] theorem not_publishes_ofExcept (r : Except ε α) (s : σ) :
    ¬(ofExcept r : Program σ ω ε α).Publishes s := not_not_intro rfl

@[simp] theorem not_publishes_query (f : σ → α) (s : σ) :
    ¬(query f : Program σ ω ε α).Publishes s := not_not_intro rfl

@[simp] theorem not_publishes_update (g : σ → σ) (s : σ) :
    ¬(update g : Program σ ω ε Unit).Publishes s := not_not_intro rfl

@[simp] theorem not_publishes_tryUpdate (g : σ → Except ε (α × σ)) (s : σ) :
    ¬(tryUpdate g : Program σ ω ε α).Publishes s := by
  simp only [Publishes, tryUpdate]
  cases g s <;> simp

@[simp] theorem publishes_publish (w : ω) (s : σ) :
    (publish w : Program σ ω ε Unit).Publishes s := List.cons_ne_nil w []

@[simp] theorem publishes_bind (x : Program σ ω ε α) (f : α → Program σ ω ε β) (s : σ) :
    (x >>= f).Publishes s ↔ x.Publishes s ∨ ∃ a s', x.Returns s a s' ∧ (f a).Publishes s' := by
  simp only [Returns, Publishes, bind_run, Program.bind]
  cases h : (x s).outcome with
  | ok a => simp [Classical.or_iff_not_imp_left]
  | err e => simp
  | panic m => simp

@[simp] theorem publishes_attempt (x : Program σ ω ε α) (s : σ) :
    x.attempt.Publishes s ↔ x.Publishes s := by
  simp only [attempt, Publishes]
  cases (x s).outcome <;> rfl

@[simp] theorem publishes_savepoint (x : Program σ ω ε α) (s : σ) :
    x.savepoint.Publishes s ↔ x.Publishes s := by
  simp only [savepoint, Publishes]
  cases (x s).outcome <;> rfl

@[simp] theorem publishes_expect (m : String) (x : Program σ ω ε α) (s : σ) :
    (x.expect m).Publishes s ↔ x.Publishes s := by
  simp only [expect, Publishes]
  cases (x s).outcome <;> rfl

theorem expect_log (m : String) (x : Program σ ω ε α) (s : σ) : (x.expect m s).log = (x s).log := by
  simp only [expect]
  cases (x s).outcome <;> rfl

@[simp] theorem publishes_when (c : Prop) [Decidable c] (x : Program σ ω ε Unit) (s : σ) :
    (when c x).Publishes s ↔ c ∧ x.Publishes s := by
  by_cases h : c <;> simp [when, h]

/-- A loop publishes at the first element whose turn publishes: the turns before it return. -/
theorem publishes_forEach {f : α → Program σ ω ε Unit} (as : List α) (s : σ) :
    (forEach as f).Publishes s ↔ ∃ before a after s', as = before ++ a :: after ∧
      (forEach before f).Returns s () s' ∧ (f a).Publishes s' := by
  induction as generalizing s with
  | nil => simp [forEach]
  | cons a as ih =>
    simp only [forEach, publishes_bind, ih]
    constructor
    · rintro (ha | ⟨u,s₁,ha,before,a',after,s',rfl,hbefore,ha'⟩)
      -- published in the first turn
      · exact ⟨[],a,as,s,rfl,(returns_forEach_nil f s s ()).mpr rfl,ha⟩
      -- published in a later one
      · exact ⟨a :: before,a',after,s',rfl,
          (returns_forEach_cons a before f s s' ()).mpr ⟨s₁,ha,hbefore⟩,ha'⟩
    · rintro ⟨before,a',after,s',has,hbefore,ha'⟩
      cases before with
      | nil =>
        obtain ⟨rfl,-⟩ := List.cons.inj has
        rw [(returns_forEach_nil f s s' ()).mp hbefore] at ha'
        exact Or.inl ha'
      | cons x before =>
        obtain ⟨rfl,rfl⟩ := List.cons.inj has
        obtain ⟨s₁,ha,hbefore⟩ := (returns_forEach_cons a before f s s' ()).mp hbefore
        exact Or.inr ⟨(),s₁,ha,before,a',after,s',rfl,hbefore,ha'⟩

theorem publishes_accumEach {γ : Type} {f : β → α → Program σ ω ε (β × γ)} (as : List α) (b : β)
    (s : σ) : (accumEach f b as).Publishes s ↔ ∃ before a after q s', as = before ++ a :: after ∧
      (accumEach f b before).Returns s q s' ∧ (f q.1 a).Publishes s' := by
  induction as generalizing b s with
  | nil => simp [accumEach]
  | cons a as ih =>
    simp only [accumEach, publishes_bind, ih, not_publishes_pure, and_false, exists_false, or_false]
    constructor
    · rintro (ha | ⟨p,s₁,ha,before,a',after,q,s',rfl,hbefore,ha'⟩)
      · exact ⟨[],a,as,(b,[]),s,rfl,(returns_accumEach_nil f b s s _).mpr ⟨rfl,rfl⟩,ha⟩
      · exact ⟨a :: before,a',after,(q.1,p.2 :: q.2),s',rfl,
          (returns_accumEach_cons f b a before s s' _).mpr ⟨p,q,s₁,ha,hbefore,rfl⟩,ha'⟩
    · rintro ⟨before,a',after,q,s',has,hbefore,ha'⟩
      cases before with
      | nil =>
        obtain ⟨rfl,-⟩ := List.cons.inj has
        obtain ⟨rfl,rfl⟩ := (returns_accumEach_nil f b s s' q).mp hbefore
        exact Or.inl ha'
      | cons x before =>
        obtain ⟨rfl,rfl⟩ := List.cons.inj has
        obtain ⟨p,r,s₁,ha,hrest,rfl⟩ := (returns_accumEach_cons f b a before s s' q).mp hbefore
        exact Or.inr ⟨p,s₁,ha,before,a',after,r,s',rfl,hrest,ha'⟩

end Program

namespace Program
variable {σ ω ε α : Type}

/-- The program, whatever it returns. -/
def tried (x : Program σ ω ε α) : Program σ ω ε Unit := do
  let _ ← x.attempt
  pure ()

theorem tried_log (x : Program σ ω ε α) (s : σ) : (x.tried s).log = (x s).log := by
  simp only [tried, bind_run, Program.bind, attempt]
  cases (x s).outcome <;> simp [pure, Program.pure]

theorem tried_state (x : Program σ ω ε α) (s : σ) : (x.tried s).state = (x s).state := by
  simp only [tried, bind_run, Program.bind, attempt]
  cases (x s).outcome <;> rfl

theorem not_panics_of_returns {x : Program σ ω ε α} {s s' : σ} {a : α} (h : x.Returns s a s') :
    ¬x.Panics s := by
  rintro ⟨m,hm⟩
  rw [h.1] at hm
  simp at hm

theorem returns_tried {x : Program σ ω ε α} {s : σ} (h : ¬x.Panics s) :
    x.tried.Returns s () (x s).state := by
  obtain ⟨r,s',hr⟩ := attempt_returns h
  have htried : x.tried.Returns s () s' :=
    (returns_bind _ _ _ _ _).mpr ⟨r,s',hr,(returns_pure _ _ _ _).mpr ⟨rfl,rfl⟩⟩
  rwa [← tried_state, htried.2]

@[simp] theorem publishes_tried (x : Program σ ω ε α) (s : σ) :
    x.tried.Publishes s ↔ x.Publishes s := by
  rw [Publishes, Publishes, tried_log]

theorem within_tried {R : σ → σ → Prop} {x : Program σ ω ε α} (hx : Within R x) :
    Within R x.tried := by
  intro s
  rw [tried_state]
  exact hx s

theorem leaves_tried {P : σ → List ω → σ → Prop} {x : Program σ ω ε α} (hx : Leaves P x) :
    Leaves P x.tried := by
  intro s
  rw [tried_log, tried_state]
  exact hx s

end Program

/-! ### What was published last -/

section reading
variable {σ ω ε α : Type} {f : σ → Option ω}

/-- What was published last, or else what the store said before, is what the store says. -/
def Told (f : σ → Option ω) (s : σ) (l : List ω) (s' : σ) : Prop :=
  ∀ w, f s = some w → f s' = some (l.getLastD w)

instance (f : σ → Option ω) : IsTrace (Told f) where
  nil _ _ h := h
  append h h' w hw := by
    rw [h' _ (h w hw), List.getLastD_eq_getLast?, List.getLastD_eq_getLast?,
      List.getLastD_eq_getLast?, List.getLast?_append, Option.getD_or]

/-- Something that is published after the rest is what counts. -/
theorem Told.last {s s' s'' : σ} {l l' : List ω} (h : Told f s' l' s'') (hs : (f s').isSome = true)
    (hl : l' ≠ []) : Told f s (l ++ l') s'' := by
  intro w _
  obtain ⟨v,hv⟩ := Option.isSome_iff_exists.mp hs
  -- the last of both lists is the last of the second one
  rw [h v hv, List.getLastD_eq_getLast?, List.getLastD_eq_getLast?, List.getLast?_append,
    List.getLast?_eq_some_getLast hl]
  rfl

/-- The last value that is published from `s` is what the store then says. -/
def Program.Tells (f : σ → Option ω) (x : Program σ ω ε α) (s : σ) : Prop :=
  Told f s (x s).log (x s).state

theorem tells_bind_last {β : Type} {x : Program σ ω ε α} {g : α → Program σ ω ε β} {s t : σ} {a : α}
    (hx : x.Returns s a t) (hg : Program.Leaves (Told f) (g a)) (ht : (f t).isSome = true)
    (hpublish : (g a).Publishes t) : (x >>= g).Tells f s := by
  obtain ⟨ha,rfl⟩ := hx
  simp only [Program.Tells, Program.bind_run, Program.bind, ha]
  exact (hg _).last ht hpublish

theorem tells_tried (x : Program σ ω ε α) (s : σ) : x.tried.Tells f s ↔ x.Tells f s := by
  rw [Program.Tells, Program.Tells, Program.tried_log, Program.tried_state]

theorem tells_savepoint_of_returns {x : Program σ ω ε α} {s s' : σ} {a : α} (h : x.Returns s a s') :
    x.savepoint.Tells f s ↔ x.Tells f s := by
  simp only [Program.Tells, Program.savepoint, h.1]

/-- What the store says only grows, and all that is published is more than what it said before. -/
def Rises [Preorder ω] (f : σ → Option ω) (s : σ) (l : List ω) (s' : σ) : Prop :=
  ∀ w, f s = some w → ∃ w', f s' = some w' ∧ w ≤ w' ∧ (∀ v ∈ l, w < v) ∧ (l = [] → w' = w)

instance [Preorder ω] (f : σ → Option ω) : IsTrace (Rises f) where
  nil _ w hw := ⟨w,hw,le_refl w,by simp,fun _ => rfl⟩
  append h h' w hw := by
    obtain ⟨w₁,h₁,hle,hlt,heq⟩ := h w hw
    obtain ⟨w',hw',hle',hlt',heq'⟩ := h' w₁ h₁
    refine ⟨w',hw',hle.trans hle',fun v hv => ?_,fun hnil => ?_⟩
    · rcases List.mem_append.mp hv with hv | hv
      · exact hlt v hv
      · exact lt_of_le_of_lt hle (hlt' v hv)
    · obtain ⟨hl,hl'⟩ := List.append_eq_nil_iff.mp hnil
      exact (heq' hl').trans (heq hl)

variable [Preorder ω]

/-- What is put back rose as well. -/
theorem Rises.back {s s' : σ} {l : List ω} (h : Rises f s l s') : Rises f s l s := by
  intro w hw
  obtain ⟨-,-,-,hlt,-⟩ := h w hw
  exact ⟨w,hw,le_refl w,hlt,fun _ => rfl⟩

theorem isSome_of_rises {x : Program σ ω ε α} {s s' : σ} {a : α}
    (hx : Program.Leaves (Rises f) x) (h : x.Returns s a s') (hs : (f s).isSome = true) :
    (f s').isSome = true := by
  obtain ⟨w,hw⟩ := Option.isSome_iff_exists.mp hs
  obtain ⟨w',hw',-⟩ := hx s w hw
  rw [h.2] at hw'
  exact Option.isSome_of_eq_some hw'

theorem rises_savepoint {x : Program σ ω ε α} (h : Program.Leaves (Rises f) x) :
    Program.Leaves (Rises f) x.savepoint :=
  Program.leaves_savepoint h fun s _ => (h s).back

/-- After two parts the store is told by the second one if that published something, and else by the
first one. -/
theorem told_append_iff {s s' s'' : σ} {l l' : List ω} (h : Rises f s' l' s'')
    (hs : (f s).isSome = true) (hs' : (f s').isSome = true) :
    Told f s (l ++ l') s'' ↔ (l' ≠ [] → Told f s' l' s'') ∧ (l' = [] → Told f s l s') := by
  obtain ⟨w,hw⟩ := Option.isSome_iff_exists.mp hs
  obtain ⟨v,hv⟩ := Option.isSome_iff_exists.mp hs'
  obtain ⟨v',hv',-,-,hnil⟩ := h v hv
  by_cases hl : l' = []
  · obtain rfl := hnil hl
    simp [Told, hl, hw, hv, hv']
  · simp [Told, hl, hw, hv, List.getLastD_eq_getLast?, List.getLast?_append,
      List.getLast?_eq_some_getLast hl]

theorem tells_bind_iff {β : Type} {x : Program σ ω ε α} {g : α → Program σ ω ε β} {s t : σ} {a : α}
    (hx : x.Returns s a t) (hg : Program.Leaves (Rises f) (g a)) (hs : (f s).isSome = true)
    (ht : (f t).isSome = true) : (x >>= g).Tells f s ↔
      ((g a).Publishes t → (g a).Tells f t) ∧ (¬(g a).Publishes t → x.Tells f s) := by
  obtain ⟨ha,rfl⟩ := hx
  simp only [Program.Tells, Program.Publishes, Program.bind_run, Program.bind, ha, not_not]
  exact told_append_iff (hg _) hs ht

/-- Something that was published and put back tells something else than the store says. -/
theorem Rises.told_back_iff {s s' : σ} {l : List ω} (h : Rises f s l s')
    (hs : (f s).isSome = true) : Told f s l s ↔ l = [] := by
  obtain ⟨w,hw⟩ := Option.isSome_iff_exists.mp hs
  obtain ⟨-,-,-,hlt,-⟩ := h w hw
  constructor
  · intro htold
    by_contra hne
    -- what was published last is above what the store said, and was put back to
    have he := htold w hw
    rw [hw, List.getLastD_eq_getLast?, List.getLast?_eq_some_getLast hne, Option.getD_some,
      Option.some.injEq] at he
    have hlast := hlt _ (List.getLast_mem hne)
    rw [← he] at hlast
    exact lt_irrefl w hlast
  · rintro rfl
    exact fun _ hw => hw

/-- A transaction tells what the store says exactly if it commits or has published nothing. -/
theorem tells_savepoint_iff {x : Program σ ω ε α} {s : σ}
    (htold : (x s).outcome.isOk = true → x.Tells f s)
    (hrises : Rises f s (x s).log (x s).state) (hs : (f s).isSome = true) :
    x.savepoint.Tells f s ↔ (x s).outcome.isOk = true ∨ ¬x.Publishes s := by
  have hback := hrises.told_back_iff hs
  simp only [Program.Tells, Program.savepoint, Program.Publishes, not_not] at htold ⊢
  cases h : (x s).outcome with
  | ok a => simpa [Outcome.isOk] using htold (by rw [h]; rfl)
  | err e => simpa [Outcome.isOk] using hback
  | panic m => simpa [Outcome.isOk] using hback

/-- What is rolled back tells what the store says exactly if it has published nothing. -/
theorem tells_savepoint_of_fails {x : Program σ ω ε α} {s s' : σ} {e : ε} (h : x.Fails s e s')
    (hrises : Program.Leaves (Rises f) x) (hs : (f s).isSome = true) :
    x.savepoint.Tells f s ↔ ¬x.Publishes s := by
  simp only [Program.Tells, Program.savepoint, h.1, Program.Publishes, not_not]
  exact (hrises s).told_back_iff hs

end reading
end Txn
