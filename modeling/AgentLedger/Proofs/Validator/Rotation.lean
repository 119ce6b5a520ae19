import AgentLedger.Validator.Registry
import Mathlib.Data.Nat.Periodic

namespace AgentLedger

/-!
# The rotation of proposers

However a registry has been brought about, each of its validators has the minimum stake and the
voting power that follows from its stake and reputation. If each validator is written down as often
as it has weight, the proposers are read off this list in turn. So somebody can propose as soon as
there is any weight, and in a full round each validator proposes as often as it has weight, whatever
boosts the reputations give.
-/

/-- What can be asked of a registry. -/
inductive RegistryUpdate where
  | add (v : Validator)
  | remove (a : Address)
  | updateReputation (a : Address) (reputation : Float)

/-- A validator that may stand in a registry under an address. -/
structure Validator.Admitted (minimum : Amount) (a : Address) (v : Validator) : Prop where
  address_eq : v.address = a
  minimum_le : minimum ≤ v.stake
  power_eq : v.votingPower = powerOf v.stake v.reputation

theorem Validator.weight_pos_iff {v : Validator} : 0 < v.weight ↔ 0 < v.votingPower := by
  rw [Int64.lt_iff_toInt_lt, weight]
  change _ ↔ 0 < v.votingPower.toInt
  omega

theorem Validator.weight_lt (v : Validator) : v.weight < 2 ^ 63 := by
  have := v.votingPower.toInt_lt
  rw [weight]
  omega

namespace ValidatorRegistry

variable {r s : ValidatorRegistry} {a : Address} {v : Validator}

/-! ## What a registry holds -/

def Sound (r : ValidatorRegistry) : Prop :=
  r.validators.Every (Validator.Admitted r.minimumStake)

/-- An update that is refused changes nothing. -/
def update (r : ValidatorRegistry) : RegistryUpdate → ValidatorRegistry
  | .add v =>
      match r.add v with
      | .ok s => s
      | .error _ => r
  | .remove a => r.remove a
  | .updateReputation a reputation =>
      match r.updateReputation a reputation with
      | .ok (_, s) => s
      | .error _ => r

def updateAll (r : ValidatorRegistry) (updates : List RegistryUpdate) : ValidatorRegistry :=
  updates.foldl update r

theorem Sound.add (sound : r.Sound) (added : r.add v = .ok s) :
    s.Sound ∧ s.minimumStake = r.minimumStake := by
  unfold ValidatorRegistry.add at added
  split at added
  · cases added
  · next enough =>
      cases added
      exact ⟨SortedMap.Every.insert sound ⟨rfl, Nat.not_lt.1 enough, rfl⟩, rfl⟩

theorem Sound.updateReputation (sound : r.Sound) {reputation : Float} {power : Int64}
    (updated : r.updateReputation a reputation = .ok (power, s)) :
    s.Sound ∧ s.minimumStake = r.minimumStake := by
  unfold ValidatorRegistry.updateReputation at updated
  split at updated
  · cases updated
  · next v found =>
      cases updated
      have admitted := sound a v found
      exact ⟨SortedMap.Every.insert sound ⟨admitted.address_eq, admitted.minimum_le, rfl⟩, rfl⟩

theorem Sound.update (sound : r.Sound) (x : RegistryUpdate) :
    (r.update x).Sound ∧ (r.update x).minimumStake = r.minimumStake := by
  cases x with
  | add v =>
      cases added : r.add v with
      | ok s =>
          simp only [ValidatorRegistry.update, added]
          exact sound.add added
      | error _ =>
          have same : r.update (.add v) = r := by simp only [ValidatorRegistry.update, added]
          rw [same]
          exact ⟨sound, rfl⟩
  | remove a => exact ⟨SortedMap.Every.erase sound a, rfl⟩
  | updateReputation a reputation =>
      cases updated : r.updateReputation a reputation with
      | ok result =>
          simp only [ValidatorRegistry.update, updated]
          exact sound.updateReputation updated
      | error _ =>
          have same : r.update (.updateReputation a reputation) = r := by
            simp only [ValidatorRegistry.update, updated]
          rw [same]
          exact ⟨sound, rfl⟩

theorem Sound.updateAll (sound : r.Sound) (updates : List RegistryUpdate) :
    (r.updateAll updates).Sound ∧ (r.updateAll updates).minimumStake = r.minimumStake := by
  induction updates generalizing r with
  | nil => exact ⟨sound, rfl⟩
  | cons x rest ih =>
      obtain ⟨first, kept⟩ := sound.update x
      obtain ⟨later, still⟩ := ih first
      exact ⟨later, still.trans kept⟩

theorem mem_values_iff : v ∈ r.validators.values ↔ ∃ a, r.get? a = some v := by
  unfold SortedMap.values get?
  simp only [List.mem_map, Prod.exists, exists_eq_right, SortedMap.mem_entries_iff]

/-- No two validators in a registry have the same address. -/
theorem Sound.pairwise_values (sound : r.Sound) :
    r.validators.values.Pairwise fun v w => v.address ≠ w.address := by
  rw [SortedMap.values, List.pairwise_map]
  refine r.validators.sorted.imp_of_mem fun {d e} hd he less same => ?_
  have left := (sound d.1 d.2 ((SortedMap.mem_entries_iff _ _ _).1 hd)).address_eq
  have right := (sound e.1 e.2 ((SortedMap.mem_entries_iff _ _ _).1 he)).address_eq
  rw [← left, ← right, same, Std.compare_self] at less
  cases less

/-! ## Turns -/

/-- Each validator as often in a row as it has weight. -/
def turns (vs : List Validator) : List Validator := vs.flatMap fun v => .replicate v.weight v

theorem turns_cons (v : Validator) (rest : List Validator) :
    turns (v :: rest) = .replicate v.weight v ++ turns rest := List.flatMap_cons

theorem length_turns (vs : List Validator) : (turns vs).length = weightOf vs := by
  induction vs with
  | nil => rfl
  | cons v rest ih => rw [turns_cons, List.length_append, List.length_replicate, ih, weightOf]

theorem mem_turns_iff {vs : List Validator} : v ∈ turns vs ↔ v ∈ vs ∧ 0 < v.weight := by
  simp only [turns, List.mem_flatMap, List.mem_replicate]
  constructor
  · rintro ⟨w, mem, some, rfl⟩
    exact ⟨mem, Nat.pos_of_ne_zero some⟩
  · rintro ⟨mem, some⟩
    exact ⟨v, mem, Nat.ne_of_gt some, rfl⟩

theorem countP_turns {vs : List Validator}
    (apart : vs.Pairwise fun v w => v.address ≠ w.address) (mem : v ∈ vs) :
    (turns vs).countP (fun w => w.address = v.address) = v.weight := by
  induction vs with
  | nil => cases mem
  | cons w rest ih =>
      obtain ⟨others, apart⟩ := List.pairwise_cons.1 apart
      rw [turns_cons, List.countP_append, List.countP_replicate]
      rcases List.mem_cons.1 mem with rfl | later
      · have none : (turns rest).countP (fun w => w.address = v.address) = 0 := by
          refine List.countP_eq_zero.2 fun w there => ?_
          simpa using (others w (mem_turns_iff.1 there).1).symm
        simp [none]
      · rw [ih apart later]
        simp [others v later]

/-! ## Sums that stop -/

theorem toNat_addWeight (sum : UInt64) (v : Validator) :
    (addWeight sum v).toNat = min (sum.toNat + v.weight) 0xFFFFFFFFFFFFFFFF :=
  Saturating.toNat_uint64 _

theorem toNat_foldl_addWeight (vs : List Validator) (sum : UInt64) :
    (vs.foldl addWeight sum).toNat = min (sum.toNat + weightOf vs) 0xFFFFFFFFFFFFFFFF := by
  induction vs generalizing sum with
  | nil =>
      have small : sum.toNat ≤ 0xFFFFFFFFFFFFFFFF := Nat.le_of_lt_succ sum.toNat_lt
      simp only [List.foldl_nil, weightOf]
      omega
  | cons v rest ih =>
      rw [List.foldl_cons, ih, toNat_addWeight, weightOf]
      omega

theorem toNat_totalWeight (r : ValidatorRegistry) :
    r.totalWeight.toNat = min (weightOf r.validators.values) 0xFFFFFFFFFFFFFFFF := by
  rw [totalWeight, toNat_foldl_addWeight]
  change min (0 + _) _ = _
  rw [Nat.zero_add]

/-- Up to a target that is not the greatest number, a sum that has stopped is as good as the exact
one. -/
theorem pick_eq {target passed : UInt64} (vs : List Validator) (le : passed ≤ target)
    (below : target.toNat < 0xFFFFFFFFFFFFFFFF) :
    pick target passed vs = (turns vs)[target.toNat - passed.toNat]? := by
  rw [UInt64.le_iff_toNat_le] at le
  induction vs generalizing passed with
  | nil => rfl
  | cons v rest ih =>
      have reached := toNat_addWeight passed v
      rw [pick, turns_cons]
      split
      · next past =>
          rw [UInt64.lt_iff_toNat_lt] at past
          have own : target.toNat - passed.toNat < v.weight := by omega
          rw [List.getElem?_append_left (by simpa using own), List.getElem?_replicate, if_pos own]
      · next short =>
          rw [UInt64.lt_iff_toNat_lt] at short
          have later : v.weight ≤ target.toNat - passed.toNat := by omega
          rw [ih (by omega), List.getElem?_append_right (by simpa using later),
            List.length_replicate]
          congr 1
          omega

/-- The proposers are read off the turns, and a round is as long as the sum of the weights. -/
theorem proposerAt_eq (r : ValidatorRegistry) (height : UInt64) :
    r.proposerAt height =
      ((turns r.validators.values)[height.toNat % r.totalWeight.toNat]?).map (·.address) := by
  have total := r.toNat_totalWeight
  unfold proposerAt
  split
  · next none =>
      have empty : turns r.validators.values = [] := by
        rw [← List.length_eq_zero_iff, length_turns]
        rw [none] at total
        change 0 = _ at total
        omega
      rw [empty]
      rfl
  · next some =>
      have pos : 0 < r.totalWeight.toNat :=
        Nat.pos_of_ne_zero fun zero => some (UInt64.toNat_inj.1 zero)
      have inside := Nat.mod_lt height.toNat pos
      rw [pick_eq _ (UInt64.le_iff_toNat_le.2 (Nat.zero_le _)) (by rw [UInt64.toNat_mod]; omega),
        UInt64.toNat_mod]
      rfl

theorem isSome_proposerAt_iff (r : ValidatorRegistry) (height : UInt64) :
    (r.proposerAt height).isSome ↔ ∃ a v, r.get? a = some v ∧ 0 < v.votingPower := by
  have total := r.toNat_totalWeight
  rw [← length_turns] at total
  rw [proposerAt_eq, Option.isSome_map, isSome_getElem?]
  change _ < _ ↔ _
  constructor
  · intro inside
    have mem := mem_turns_iff.1 (List.getElem_mem inside)
    obtain ⟨a, found⟩ := mem_values_iff.1 mem.1
    exact ⟨a, _, found, Validator.weight_pos_iff.1 mem.2⟩
  · rintro ⟨a, v, found, power⟩
    have turn : v ∈ turns r.validators.values :=
      mem_turns_iff.2 ⟨mem_values_iff.2 ⟨a, found⟩, Validator.weight_pos_iff.2 power⟩
    have some_turn := List.length_pos_of_mem turn
    have inside := Nat.mod_lt height.toNat (show 0 < r.totalWeight.toNat by omega)
    omega

theorem Sound.of_proposerAt (sound : r.Sound) {height : UInt64}
    (chosen : r.proposerAt height = some a) : ∃ v, r.get? a = some v ∧ 0 < v.votingPower := by
  rw [proposerAt_eq] at chosen
  obtain ⟨v, turn, rfl⟩ := Option.map_eq_some_iff.1 chosen
  obtain ⟨mem, weight⟩ := mem_turns_iff.1 (List.mem_of_getElem? turn)
  obtain ⟨b, found⟩ := mem_values_iff.1 mem
  have own : v.address = b := (sound b v found).address_eq
  exact ⟨v, own ▸ found, Validator.weight_pos_iff.1 weight⟩

/-! ## A full round -/

theorem countP_range_turns (vs : List Validator) (a : Address) :
    (List.range (turns vs).length).countP
        (fun i => ((turns vs)[i]?).map (·.address) = some a) =
      (turns vs).countP fun v => v.address = a := by
  have read : (List.range (turns vs).length).map (fun i => (turns vs)[i]?) =
      (turns vs).map some := by
    refine List.ext_getElem (by simp) fun i inside _ => ?_
    simp
  have counts := congrArg (List.countP fun found => found.map (·.address) = some a) read
  rw [List.countP_map, List.countP_map] at counts
  simpa [Function.comp_def] using counts

/-- In as many consecutive heights as there is weight, an address comes up as often as it has
turns. -/
theorem card_proposes {start : Nat} (total : weightOf r.validators.values < UInt64.size)
    (room : start + weightOf r.validators.values ≤ UInt64.size) (a : Address) :
    ((Finset.Ico start (start + weightOf r.validators.values)).filter
        fun h => r.proposerAt (.ofNat h) = some a).card =
      (turns r.validators.values).countP fun v => v.address = a := by
  have exact : r.totalWeight.toNat = weightOf r.validators.values := by
    rw [r.toNat_totalWeight]
    exact Nat.min_eq_left (Nat.le_of_lt_succ total)
  let proposes (h : Nat) : Prop :=
    ((turns r.validators.values)[h % weightOf r.validators.values]?).map (·.address) = some a
  have periodic : Function.Periodic proposes (weightOf r.validators.values) := by
    intro h
    simp only [proposes, Nat.add_mod_right]
  have one_by_one : ∀ h ∈ Finset.Ico start (start + weightOf r.validators.values),
      r.proposerAt (.ofNat h) = some a ↔ proposes h := by
    intro h mem
    have small : h < UInt64.size := Nat.lt_of_lt_of_le (Finset.mem_Ico.1 mem).2 room
    rw [proposerAt_eq, UInt64.toNat_ofNat_of_lt' small, exact]
  rw [Finset.filter_congr one_by_one, Nat.filter_Ico_card_eq_of_periodic _ _ _ periodic,
    Nat.count, ← countP_range_turns, length_turns]
  refine List.countP_congr fun h mem => ?_
  simp only [proposes, Nat.mod_eq_of_lt (List.mem_range.1 mem)]

/-- Whatever has been asked of a registry, everyone in it has the minimum stake and the voting power
that follows from stake and reputation. A height has a proposer exactly if somebody in the registry
has positive power, and the proposer is such a one even where the sum of the powers has stopped at
the greatest number. If the sum is exact, every round of heights has each validator propose as often
as its power says, and not at all if that is negative. -/
theorem proposers_in_proportion (minimum : Amount) (updates : List RegistryUpdate) :
    let r := (withMinimumStake minimum).updateAll updates
    let total := weightOf r.validators.values
    (∀ a v, r.get? a = some v → v.address = a ∧ minimum ≤ v.stake ∧
      v.votingPower = Validator.powerOf v.stake v.reputation) ∧
    (∀ height, (r.proposerAt height).isSome ↔
      ∃ a v, r.get? a = some v ∧ 0 < v.votingPower) ∧
    (∀ height a, r.proposerAt height = some a →
      ∃ v, r.get? a = some v ∧ 0 < v.votingPower) ∧
    (total < UInt64.size → ∀ start, start + total ≤ UInt64.size →
      ∀ a v, r.get? a = some v →
        ((Finset.Ico start (start + total)).filter
          fun h => r.proposerAt (.ofNat h) = some a).card = v.votingPower.toInt.toNat) := by
  intro r total
  have empty : (withMinimumStake minimum).Sound := SortedMap.every_empty
  obtain ⟨sound, same⟩ := empty.updateAll updates
  refine ⟨fun a v found => ?_, r.isSome_proposerAt_iff, fun _ _ => Sound.of_proposerAt sound,
    fun small start room a v found => ?_⟩
  · have admitted := sound a v found
    rw [same] at admitted
    exact ⟨admitted.address_eq, admitted.minimum_le, admitted.power_eq⟩
  · have own : v.address = a := (sound a v found).address_eq
    rw [card_proposes small room, ← own]
    exact countP_turns (Sound.pairwise_values sound) (mem_values_iff.2 ⟨a, found⟩)

/-- Of three validators one has no stake and is refused. Of the other two each has its share of the
first round, the one that has claimed more power too. -/
theorem two_of_three_take_turns :
    let other : Address := ⟨.replicate 20 1, by decide⟩
    let small : Validator := .new .zero [] 1 0
    let large : Validator := .new other [] Policy.minimumStake 1.5
    let updates : List RegistryUpdate :=
      [.add { large with votingPower := 20000 }, .add { small with stake := 0 }, .add small]
    let r := (withMinimumStake 1).updateAll updates
    let total := small.weight + large.weight
    weightOf r.validators.values = total ∧
      ((Finset.Ico 0 total).filter fun h => r.proposerAt (.ofNat h) = some .zero).card =
        small.weight ∧
      ((Finset.Ico 0 total).filter fun h => r.proposerAt (.ofNat h) = some other).card =
        large.weight := by
  intro other small large updates r total
  have both : r.validators.values = [small, large] := rfl
  have sum : weightOf r.validators.values = total := congrArg weightOf both
  have bounded : total < UInt64.size := Nat.add_lt_add small.weight_lt large.weight_lt
  obtain ⟨_, _, _, shares⟩ := proposers_in_proportion 1 updates
  have share := shares (sum ▸ bounded) 0
  simp only [Nat.zero_add] at share
  exact ⟨sum, share (Nat.le_of_lt bounded) .zero small rfl,
    share (Nat.le_of_lt bounded) other large rfl⟩

end ValidatorRegistry

end AgentLedger
