import AgentLedger.Proofs.Ledger.Nested

namespace AgentLedger

/-!
# Regular runs

A run on a ledger is regular if it keeps the way back to where it started and sees nothing of the
ledger but the contents. Whatever is put together from regular runs is regular, among it a run
that is undone if it fails.
-/

namespace Ledger

/-! ## Undoing a whole run -/

theorem revertTo_checkpoint {l changed : Ledger} (depth : changed.depth = l.depth + 1)
    (way : changed.GoesBackTo l) (tidy : l.Tidy) : changed.revertTo l.checkpoint.1 = l := by
  have undone : changed.rewind l.checkpoint.1.mark = { l with depth := l.depth + 1 } := by
    rw [← depth]
    exact way.rewind
  rw [revertTo_eq, undone]
  by_cases shut : l.depth = 0
  · rw [close_of_le_one (by simp [shut])]
    obtain ⟨contents, notes, n⟩ := l
    cases shut
    cases tidy rfl
    rfl
  · rw [close_of_one_lt (Nat.succ_lt_succ (Nat.pos_of_ne_zero shut))]
    rfl

/-- A run that keeps the way back while a checkpoint is open, and whose result and contents depend
on the contents only. -/
structure Regular {β : Type} (run : Ledger → β × Ledger) : Prop where
  goesBack : ∀ l, 0 < l.depth → (run l).2.depth = l.depth ∧ (run l).2.GoesBackTo l
  blind : ∀ l, run (.ofContents l.contents) = ((run l).1, .ofContents (run l).2.contents)

namespace Regular

variable {β γ : Type}

theorem reading (f : Contents → β) : Regular fun l => (f l.contents, l) where
  goesBack l _ := ⟨rfl, .refl l⟩
  blind _ := rfl

theorem bind {f : Ledger → β × Ledger} {g : β → Ledger → γ × Ledger} (hf : Regular f)
    (hg : ∀ b, Regular (g b)) : Regular fun l => g (f l).1 (f l).2 where
  goesBack l opened := by
    obtain ⟨depth, way⟩ := hf.goesBack l opened
    obtain ⟨depth', way'⟩ := (hg (f l).1).goesBack (f l).2 (depth ▸ opened)
    exact ⟨depth'.trans depth, way'.trans way⟩
  blind l := by
    simp only [hf.blind l]
    exact (hg (f l).1).blind (f l).2

theorem map {f : Ledger → β × Ledger} (hf : Regular f) (g : β → γ) :
    Regular fun l => (g (f l).1, (f l).2) :=
  hf.bind fun b => reading fun _ => g b

/-- A run that goes on in one way after a success and in another after a failure. -/
theorem branch {ε : Type} {f : Ledger → Except ε β × Ledger} {run : Ledger → γ × Ledger}
    {onOk : β → Ledger → γ × Ledger} {onError : ε → Ledger → γ × Ledger} (hf : Regular f)
    (ho : ∀ b, Regular (onOk b)) (he : ∀ e, Regular (onError e))
    (ok : ∀ l b m, f l = (.ok b, m) → run l = onOk b m)
    (error : ∀ l e m, f l = (.error e, m) → run l = onError e m) : Regular run := by
  let next : Except ε β → Ledger → γ × Ledger
    | .ok b => onOk b
    | .error e => onError e
  have joined : Regular fun l => next (f l).1 (f l).2 := by
    refine hf.bind fun r => ?_
    cases r with
    | ok b => exact ho b
    | error e => exact he e
  have split : run = fun l => next (f l).1 (f l).2 := by
    funext l
    cases ran : f l with
    | mk r m =>
        cases r with
        | ok b => exact ok l b m ran
        | error e => exact error l e m ran
  rw [split]
  exact joined

theorem change (x : Change) : Regular fun l =>
    match x.onLedger l with
    | .ok m => (Except.ok (), m)
    | .error e => (Except.error e, l) where
  goesBack l opened := by
    have depth := x.depth_perform l
    have way := x.perform_goesBackTo opened
    unfold Change.perform at depth way
    cases h : x.onLedger l with
    | ok m =>
        rw [h] at depth way
        exact ⟨depth, way⟩
    | error e => exact ⟨rfl, .refl l⟩
  blind l := by
    rw [x.onLedger_ofContents]
    cases x.onLedger l with
    | ok m => rfl
    | error e => rfl

/-- Ledgers with equal contents are told apart neither by the result nor by the contents. -/
theorem congr {run : Ledger → β × Ledger} (h : Regular run) {l m : Ledger}
    (same : l.contents = m.contents) :
    (run l).1 = (run m).1 ∧ (run l).2.contents = (run m).2.contents := by
  have both := (h.blind l).symm.trans (same ▸ h.blind m)
  obtain ⟨result, copy⟩ := Prod.mk.inj both
  have contents := congrArg Ledger.contents copy
  exact ⟨result, contents⟩

end Regular

/-! ## Atomic runs -/

variable {α : Type} {change : Ledger → Except ChainError α × Ledger} {l : Ledger}

theorem atomically_eq (l : Ledger) (change : Ledger → Except ChainError α × Ledger) :
    l.atomically change =
      match change l.checkpoint.2 with
      | (.ok a, changed) => (.ok a, changed.close)
      | (.error e, changed) => (.error e, changed.revertTo l.checkpoint.1) := rfl

theorem result_atomically (l : Ledger) (change : Ledger → Except ChainError α × Ledger) :
    (l.atomically change).1 = (change l.checkpoint.2).1 := by
  rw [atomically_eq]
  cases change l.checkpoint.2 with
  | mk r changed =>
      cases r with
      | ok _ => rfl
      | error _ => rfl

theorem atomically_of_error (h : Regular change) (tidy : l.Tidy) {e : ChainError}
    (failed : (l.atomically change).1 = .error e) : (l.atomically change).2 = l := by
  obtain ⟨depth, way⟩ := h.goesBack l.checkpoint.2 (Nat.succ_pos l.depth)
  rw [atomically_eq] at failed ⊢
  cases ran : change l.checkpoint.2 with
  | mk r changed =>
      rw [ran] at depth way failed
      cases r with
      | ok a => cases failed
      | error e => exact revertTo_checkpoint depth (.of_eq way rfl rfl) tidy

/-- Whether an atomic run succeeds and what it leaves in the ledger can be told from a run on a
copy of the contents. -/
theorem atomically_onCopy (h : Regular change) (l : Ledger) :
    (l.atomically change).1 = (change (.ofContents l.contents)).1 ∧
      (l.atomically change).2.contents =
        match (change (.ofContents l.contents)).1 with
        | .ok _ => (change (.ofContents l.contents)).2.contents
        | .error _ => l.contents := by
  obtain ⟨result, contents⟩ := h.congr (l := l.checkpoint.2) (m := .ofContents l.contents) rfl
  obtain ⟨_, way⟩ := h.goesBack l.checkpoint.2 (Nat.succ_pos l.depth)
  rw [atomically_eq, ← result, ← contents]
  cases ran : change l.checkpoint.2 with
  | mk r changed =>
      rw [ran] at way
      cases r with
      | ok a => exact ⟨rfl, changed.contents_close⟩
      | error e => exact ⟨rfl, way.contents_revertTo rfl⟩

theorem atomically_of_copy_ok (h : Regular change) {a : α} {m : Ledger}
    (ran : change (.ofContents l.contents) = (.ok a, m)) :
    ∃ after, l.atomically change = (.ok a, after) ∧ after.contents = m.contents := by
  obtain ⟨result, contents⟩ := atomically_onCopy h l
  rw [ran] at result contents
  exact ⟨(l.atomically change).2, Prod.ext result rfl, contents⟩

theorem atomically_of_copy_error (h : Regular change) {e : ChainError} {m : Ledger}
    (ran : change (.ofContents l.contents) = (.error e, m)) :
    ∃ after, l.atomically change = (.error e, after) ∧ after.contents = l.contents := by
  obtain ⟨result, contents⟩ := atomically_onCopy h l
  rw [ran] at result contents
  exact ⟨(l.atomically change).2, Prod.ext result rfl, contents⟩

theorem depth_atomically (h : Regular change) (l : Ledger) :
    (l.atomically change).2.depth = l.depth := by
  obtain ⟨depth, _⟩ := h.goesBack l.checkpoint.2 (Nat.succ_pos l.depth)
  rw [atomically_eq]
  cases ran : change l.checkpoint.2 with
  | mk r changed =>
      rw [ran] at depth
      have one : changed.depth - 1 = l.depth := by
        change changed.depth = l.depth + 1 at depth
        omega
      cases r with
      | ok a => exact (changed.depth_close).trans one
      | error e => exact ((changed.rewind _).depth_close).trans one

theorem tidy_atomically (l : Ledger) (change : Ledger → Except ChainError α × Ledger) :
    (l.atomically change).2.Tidy := by
  rw [atomically_eq]
  cases change l.checkpoint.2 with
  | mk r changed =>
      cases r with
      | ok a => exact changed.tidy_close
      | error e => exact (changed.rewind _).tidy_close

theorem atomically_goesBackTo (h : Regular change) (opened : 0 < l.depth) :
    (l.atomically change).2.GoesBackTo l := by
  obtain ⟨depth, way⟩ := h.goesBack l.checkpoint.2 (Nat.succ_pos l.depth)
  have tidy : l.Tidy := fun shut => absurd shut (Nat.ne_of_gt opened)
  rw [atomically_eq]
  cases ran : change l.checkpoint.2 with
  | mk r changed =>
      rw [ran] at depth way
      cases r with
      | error e =>
          change (changed.revertTo l.checkpoint.1).GoesBackTo l
          rw [revertTo_checkpoint depth (.of_eq way rfl rfl) tidy]
          exact .refl l
      | ok a =>
          have more : 1 < changed.depth := by
            change changed.depth = l.depth + 1 at depth
            omega
          change changed.close.GoesBackTo l
          rw [close_of_one_lt more]
          exact .of_eq (way.trans (.of_eq (.refl l) rfl rfl)) rfl rfl

theorem Regular.atomically (h : Regular change) : Regular fun l => l.atomically change where
  goesBack l opened := ⟨depth_atomically h l, atomically_goesBackTo h opened⟩
  blind l := by
    obtain ⟨result, contents⟩ := atomically_onCopy h l
    obtain ⟨result', contents'⟩ := atomically_onCopy h (.ofContents l.contents)
    refine Prod.ext (result'.trans result.symm) ?_
    exact eq_ofContents (depth_atomically h _) (tidy_atomically _ change)
      (contents'.trans contents.symm)

end Ledger

end AgentLedger
