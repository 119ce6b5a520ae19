import AgentLedger.Engine
import AgentLedger.Proofs.Machine.Discipline

namespace AgentLedger

/-!
# Atomicity of transactions

Applying a transaction is a regular run. If it fails, the ledger is left exactly as it was; if it
succeeds, it does to the contents what it would do to a copy that takes no notes, and every
checkpoint that was open before still restores.
-/

namespace NoncePolicy

/-- The change by which the policy advances a nonce. -/
def change (p : NoncePolicy) (tx : Transaction) : Change :=
  match p with
  | unchecked => .incrementNonce tx.sender
  | rejectStale => .advanceNonce tx.sender (Saturating.addUInt64 tx.nonce 1)

theorem advance_eq (p : NoncePolicy) (l : Ledger) (tx : Transaction) :
    p.advance l tx = (p.change tx).perform l := by
  cases p with
  | unchecked => rfl
  | rejectStale => rfl

theorem onContents_change (p : NoncePolicy) (l : Ledger) (tx : Transaction) :
    (p.change tx).onContents l.contents = .ok ((p.change tx).perform l).contents := by
  cases p with
  | unchecked => rfl
  | rejectStale => rfl

theorem check_congr (p : NoncePolicy) {l m : Ledger} (same : l.contents = m.contents)
    (tx : Transaction) : p.check l tx = p.check m tx := by
  unfold check
  rw [same]

end NoncePolicy

namespace Engine

variable {e : Engine}

def Disciplined (e : Engine) : Prop := e.machine.Disciplined

theorem regular_transfer (tx : Transaction) : Exec.Regular (transfer tx) := by
  refine Exec.regular_bind (Exec.regular_charge _) fun _ => ?_
  exact Exec.regular_bind (Exec.regular_lift _) fun target => Exec.regular_transfer _ target _

theorem regular_deploy (tx : Transaction) : Exec.Regular (deploy tx) := by
  refine Exec.regular_bind (Exec.regular_lift _) fun deployment => ?_
  refine Exec.regular_bind (Exec.regular_charge _) fun _ => ?_
  have store (contract : Address) : Exec.Regular (do
      Exec.changeLedger fun l => .ok (l.setCode contract deployment.code)
      return contract.bytes) := by
    refine Exec.regular_bind (Exec.regular_changeLedger (.setCode contract deployment.code)) ?_
    exact fun _ => Exec.regular_pure _
  have settle : Exec.Regular (do
      let contract := contractAddress tx.sender tx.nonce
      if ((← Exec.contents).code? contract).isSome then
        throw (.invalidOperation (.contractExists contract))
      Exec.changeLedger fun l => .ok (l.setCode contract deployment.code)
      return contract.bytes) := by
    refine Exec.regular_bind Exec.regular_contents fun c => ?_
    dsimp only
    split
    · exact Exec.regular_bind (Exec.regular_throw _) fun _ => store _
    · exact store _
  dsimp only
  split
  · exact Exec.regular_bind (Exec.regular_throw _) fun _ => settle
  · exact settle

theorem regular_call (he : e.Disciplined) (tx : Transaction) : Exec.Regular (e.call tx) := by
  refine Exec.regular_bind (Exec.regular_charge _) fun _ => ?_
  refine Exec.regular_bind (Exec.regular_lift _) fun contract => ?_
  refine Exec.regular_bind Exec.regular_contents fun c => ?_
  split
  · exact Exec.regular_throw _
  · next code _ =>
      refine Exec.regular_bind (Exec.regular_lift _) fun call => ?_
      exact Machine.regular_execute he code call.operands

/-- Only a call runs code, so nothing else depends on the extensions. -/
theorem regular_dispatch {tx : Transaction} (he : tx.kind = .callContract → e.Disciplined) :
    Exec.Regular (e.dispatch tx) := by
  unfold dispatch
  split
  · exact Exec.regular_bind (regular_transfer tx) fun _ => Exec.regular_pure _
  · refine Exec.regular_bind (Exec.regular_charge _) fun _ => ?_
    exact Exec.regular_bind (Exec.regular_registerAgent _) fun _ => Exec.regular_pure _
  · refine Exec.regular_bind (Exec.regular_charge _) fun _ => ?_
    exact Exec.regular_bind (Exec.regular_sendMessage _) fun _ => Exec.regular_pure _
  · refine Exec.regular_bind (Exec.regular_charge _) fun _ => ?_
    exact Exec.regular_bind (Exec.regular_proveInference _ _) fun _ => Exec.regular_pure _
  · exact Exec.regular_bind (regular_deploy tx) fun _ => Exec.regular_pure _
  · next kind => exact regular_call (he kind) tx
  · exact Exec.regular_throw _
  · exact Exec.regular_throw _
  · exact Exec.regular_throw _

theorem regular_attempt (tx : Transaction) (he : tx.kind = .callContract → e.Disciplined)
    (height : UInt64) :
    Ledger.Regular (e.attempt tx height) where
  goesBack l opened := by
    obtain ⟨depth, way⟩ := (regular_dispatch he).goesBack
      (.enter l tx.sender tx.gasLimit height) opened
    unfold attempt
    cases ran : (e.dispatch tx).runOn (.enter l tx.sender tx.gasLimit height) with
    | mk r frame =>
        rw [ran] at depth way
        cases r with
        | error err => exact ⟨depth, way⟩
        | ok output =>
            simp only [e.noncePolicy.advance_eq]
            have still : 0 < frame.ledger.depth := by
              rw [show frame.ledger.depth = l.depth from depth]
              exact opened
            refine ⟨(Change.depth_perform _ _).trans depth, ?_⟩
            exact (Change.perform_goesBackTo _ still).trans way
  blind l := by
    have seen := (regular_dispatch he).blind (.enter l tx.sender tx.gasLimit height)
    have copy : CallFrame.enter (.ofContents l.contents) tx.sender tx.gasLimit height =
      (CallFrame.enter l tx.sender tx.gasLimit height).visible := rfl
    unfold attempt
    rw [copy, seen]
    cases ran : (e.dispatch tx).runOn (.enter l tx.sender tx.gasLimit height) with
    | mk r frame =>
        cases r with
        | error err => rfl
        | ok output =>
            simp only [e.noncePolicy.advance_eq]
            exact congrArg _ (Change.perform_ofContents _ frame.ledger)

theorem regular_apply (he : e.Disciplined) (tx : Transaction) (height : UInt64) :
    Ledger.Regular fun l => e.apply l tx height where
  goesBack l opened := by
    unfold apply
    cases e.noncePolicy.check l tx with
    | error err => exact ⟨rfl, .refl l⟩
    | ok _ => exact (regular_attempt tx (fun _ => he) height).atomically.goesBack l opened
  blind l := by
    have same := e.noncePolicy.check_congr (l := .ofContents l.contents) (m := l) rfl tx
    unfold apply
    rw [same]
    cases e.noncePolicy.check l tx with
    | error err => rfl
    | ok _ => exact (regular_attempt tx (fun _ => he) height).atomically.blind l

/-! ## Applying a transaction to a copy -/

/-- What a transaction does to contents that are kept without notes. Nothing has to be undone: if
the transaction fails, its copy is given up. -/
def applyOnCopy (e : Engine) (c : Contents) (tx : Transaction) (height : UInt64) :
    Except ChainError (Outcome × Contents) :=
  match e.noncePolicy.check (.ofContents c) tx with
  | .error err => .error err
  | .ok () =>
      match (e.dispatch tx).runOn (.enter (.ofContents c) tx.sender tx.gasLimit height) with
      | (.error err, _) => .error err
      | (.ok output, frame) =>
          ((e.noncePolicy.change tx).onContents frame.ledger.contents).map fun final =>
            (⟨frame.gasUsed, output⟩, final)

theorem applyOnCopy_eq (he : e.Disciplined) (l : Ledger) (tx : Transaction) (height : UInt64) :
    e.applyOnCopy l.contents tx height =
      (e.apply l tx height).1.map fun outcome => (outcome, (e.apply l tx height).2.contents) := by
  have same := e.noncePolicy.check_congr (l := .ofContents l.contents) (m := l) rfl tx
  unfold applyOnCopy apply
  rw [same]
  cases e.noncePolicy.check l tx with
  | error err => rfl
  | ok _ =>
      have regular := regular_attempt tx (fun _ => he) height
      obtain ⟨result, contents⟩ := Ledger.atomically_onCopy regular l
      simp only [result, contents]
      unfold attempt
      cases (e.dispatch tx).runOn
        (.enter (.ofContents l.contents) tx.sender tx.gasLimit height) with
      | mk r frame =>
          cases r with
          | error err => rfl
          | ok output =>
              simp only [e.noncePolicy.onContents_change, e.noncePolicy.advance_eq]
              rfl

theorem apply_of_error {tx : Transaction} (he : tx.kind = .callContract → e.Disciplined)
    {l : Ledger} (tidy : l.Tidy) {height : UInt64} {err : ChainError}
    (failed : (e.apply l tx height).1 = .error err) :
    (e.apply l tx height).2 = l := by
  unfold apply at failed ⊢
  cases checked : e.noncePolicy.check l tx with
  | error _ => rfl
  | ok _ =>
      rw [checked] at failed
      exact Ledger.atomically_of_error (regular_attempt tx he height) tidy failed

theorem tidy_apply (e : Engine) {l : Ledger} (tidy : l.Tidy) (tx : Transaction)
    (height : UInt64) : (e.apply l tx height).2.Tidy := by
  unfold apply
  cases e.noncePolicy.check l tx with
  | error _ => exact tidy
  | ok _ => exact l.tidy_atomically _

theorem depth_apply (he : e.Disciplined) (l : Ledger) (tx : Transaction) (height : UInt64) :
    (e.apply l tx height).2.depth = l.depth := by
  unfold apply
  cases e.noncePolicy.check l tx with
  | error _ => rfl
  | ok _ => exact Ledger.depth_atomically (regular_attempt tx (fun _ => he) height) l

/-- A transaction that fails leaves the ledger as it was, with its notes and checkpoints. One that
succeeds leaves what it leaves on a copy of the contents. Either way the checkpoints that were
intact still restore. -/
theorem apply_atomic (he : e.Disciplined) {c : Contents} {actions : List Action} {s : Session}
    (hs : (Session.start c).run? actions = some s) (tx : Transaction) (height : UInt64) :
    e.applyOnCopy s.ledger.contents tx height = (e.apply s.ledger tx height).1.map
      (fun outcome => (outcome, (e.apply s.ledger tx height).2.contents)) ∧
    (∀ err, (e.apply s.ledger tx height).1 = .error err →
      (e.apply s.ledger tx height).2 = s.ledger) ∧
    (e.apply s.ledger tx height).2.depth = s.ledger.depth ∧
    (∀ k ∈ s.held, k.intact = true →
      ((e.apply s.ledger tx height).2.revertTo k.checkpoint).contents = k.taken.contents) := by
  have sound : s.Sound 0 := (Session.sound_start c).run hs
  refine ⟨applyOnCopy_eq he s.ledger tx height, ?_, depth_apply he s.ledger tx height, ?_⟩
  · intro err failed
    exact apply_of_error (fun _ => he) sound.tidy failed
  · intro k mem intact
    have opened : 0 < s.ledger.depth := sound.depth_pos mem
    obtain ⟨_, way⟩ := (regular_apply he tx height).goesBack s.ledger opened
    exact (way.trans (sound.goesBack k mem intact)).contents_revertTo (sound.marked k mem)

/-! An extension that counts its calls, and a call of it. -/

def counter : Extension where
  name := "counter"
  gasCost := 5
  arity := 0
  call _ := do
    let frame ← get
    Exec.changeLedger (Change.incrementNonce frame.caller).onLedger
    return none

theorem counter_disciplined : counter.Disciplined := fun _ =>
  ⟨fun f => [.change (.incrementNonce f.caller)], fun f => (.ok none, f), fun _ => ⟨_, rfl, rfl⟩⟩

def withCounter : Engine :=
  ⟨Machine.mk (SortedMap.empty.insert 0xE0 counter) .structural, .unchecked⟩

theorem withCounter_disciplined : withCounter.Disciplined := by
  intro byte x found
  change (SortedMap.insert _ _ _).get? byte = some x at found
  rw [SortedMap.get?_insert] at found
  split at found
  · cases found
    exact counter_disciplined
  · cases found

def counterCall (gasLimit : UInt64) : Transaction where
  kind := .callContract
  sender := .zero
  recipient := some .zero
  value := 0
  gasLimit
  gasPrice := 0
  nonce := 0
  payload := Wire.encode (ContractCall.mk [])
  signature := []

/-- With enough gas the call counts twice, by the extension and by the policy, and the checkpoint
around it still restores. Without, nothing is counted. -/
theorem counterCall_atomic :
    ∃ s k, (Session.start .empty).run? [.change (.setCode .zero [0xE0]), .checkpoint] = some s ∧
      s.held = [k] ∧
      ((withCounter.apply s.ledger (counterCall 100000) 1).2.contents.account .zero).nonce = 2 ∧
      ((withCounter.apply s.ledger (counterCall 100000) 1).2.revertTo k.checkpoint).contents =
        Contents.empty.setCode .zero [0xE0] ∧
      (withCounter.apply s.ledger (counterCall 0) 1).2 = s.ledger := by
  have ran : (Session.start .empty).run? [.change (.setCode .zero [0xE0]), .checkpoint] =
      some ⟨_, [_]⟩ := rfl
  have enough := apply_atomic withCounter_disciplined ran (counterCall 100000) 1
  have short := apply_atomic withCounter_disciplined ran (counterCall 0) 1
  refine ⟨_, _, ran, rfl, by decide +kernel, ?_, ?_⟩
  · exact enough.2.2.2 _ (List.mem_singleton_self _) rfl
  · exact short.2.1 _ (by rfl)

end Engine

end AgentLedger
