import AgentLedger.Proofs.Ledger.Accounts

namespace AgentLedger

/-!
# Supply

The supply is the exact sum of all balances, which `totalSupply` computes as long as it is an
amount. Setting a balance changes the supply by the difference, so a transfer keeps it and a credit
adds to it. Two balances together never exceed the supply, so neither a transfer nor a credit
overflows while there is room above the supply.
-/

namespace Account

def total : List Account → Nat
  | [] => 0
  | x :: rest => x.balance.units + total rest

theorem total_insertEntry (a : Address) (x : Account) {l : List (Address × Account)}
    (sorted : l.Pairwise fun d e => compare d.1 e.1 = .lt) :
    total ((SortedMap.insertEntry a x l).map (·.2)) +
        ((SortedMap.findEntry a l).getD (.empty a)).balance.units =
      total (l.map (·.2)) + x.balance.units := by
  induction l with
  | nil =>
      change x.balance.units + 0 + 0 = 0 + x.balance.units
      omega
  | cons e rest ih =>
      obtain ⟨b, y⟩ := e
      obtain ⟨above, sorted⟩ := List.pairwise_cons.1 sorted
      cases order : compare a b with
      | lt =>
          -- The address comes before all others, so it has had no account so far.
          have below : ∀ e ∈ (b, y) :: rest, compare a e.1 = .lt := by
            intro e mem
            rcases List.mem_cons.1 mem with rfl | mem
            · exact order
            · exact Std.TransCmp.lt_trans order (above e mem)
          have fresh : SortedMap.findEntry a ((b, y) :: rest) = none :=
            SortedMap.findEntry_eq_none below
          rw [fresh]
          simp only [SortedMap.insertEntry, order, List.map_cons, total, Option.getD_none]
          change _ + 0 = _
          omega
      | eq =>
          simp only [SortedMap.insertEntry, SortedMap.findEntry, order, List.map_cons, total,
            if_true, Option.getD_some]
          omega
      | gt =>
          have later := ih sorted
          have other : ¬ Ordering.gt = .eq := by decide
          simp only [SortedMap.insertEntry, SortedMap.findEntry, order, List.map_cons, total,
            if_neg other]
          omega

end Account

namespace Contents

variable {c d : Contents} {a b : Address} {value : Amount}

def supply (c : Contents) : Nat := Account.total c.accounts.values

theorem supply_of_accounts_eq (h : d.accounts = c.accounts) : d.supply = c.supply := by
  unfold supply
  rw [h]

theorem supply_modifyAccount (c : Contents) (a : Address) (f : Account → Account) :
    (c.modifyAccount a f).supply + (c.balance a).units =
      c.supply + (f (c.account a)).balance.units :=
  Account.total_insertEntry a (f (c.account a)) c.accounts.sorted

theorem supply_setBalance (c : Contents) (a : Address) (value : Amount) :
    (c.setBalance a value).supply + (c.balance a).units = c.supply + value.units :=
  c.supply_modifyAccount a _

/-- What changes nothing else than nonce and code changes no supply. -/
theorem supply_modifyAccount_of_balance_eq {f : Account → Account}
    (keeps : ∀ x, (f x).balance = x.balance) : (c.modifyAccount a f).supply = c.supply := by
  have moved := c.supply_modifyAccount a f
  rw [keeps] at moved
  change _ + (c.account a).balance.units = _ at moved
  omega

@[simp] theorem supply_setCode (c : Contents) (a : Address) (code : Bytes) :
    (c.setCode a code).supply = c.supply := supply_modifyAccount_of_balance_eq fun _ => rfl

theorem supply_credit (h : c.credit a value = .ok d) : d.supply = c.supply + value.units := by
  obtain ⟨total, sum, rfl⟩ := credit_eq_ok h
  have units : total.units = value.units + (c.balance a).units := Amount.add?_eq_some_iff.1 sum
  have moved := c.supply_setBalance a total
  omega

theorem supply_transfer {source target : Address} (h : c.transfer source target value = .ok d) :
    d.supply = c.supply := by
  obtain ⟨covered, ⟨_, rfl⟩ | ⟨other, total, sum, rfl⟩⟩ := transfer_eq_ok h
  · rfl
  · have enough : value.units ≤ (c.balance source).units := covered
    have units : total.units = value.units + (c.balance target).units :=
      Amount.add?_eq_some_iff.1 sum
    have debited := c.supply_setBalance source (c.balance source - value)
    have credited := (c.setBalance source (c.balance source - value)).supply_setBalance target total
    rw [balance_setBalance, if_neg (Ne.symm other)] at credited
    rw [Amount.units_sub] at debited
    omega

/-! ## Bounds -/

theorem balance_le_supply (c : Contents) (a : Address) : (c.balance a).units ≤ c.supply := by
  have emptied := c.supply_setBalance a 0
  rw [Amount.units_zero] at emptied
  omega

theorem balances_le_supply (c : Contents) (h : a ≠ b) :
    (c.balance a).units + (c.balance b).units ≤ c.supply := by
  have emptied := c.supply_setBalance a 0
  have rest := (c.setBalance a 0).balance_le_supply b
  rw [balance_setBalance, if_neg (Ne.symm h)] at rest
  rw [Amount.units_zero] at emptied
  omega

theorem increased_eq_ok (c : Contents) (a : Address) {value : Amount}
    (room : value.units + (c.balance a).units < Amount.bound) :
    ∃ total, c.increased a value = .ok total := by
  have sum : value.add? (c.balance a) = some ⟨_, room⟩ := Amount.add?_eq_some_iff.2 rfl
  unfold increased
  rw [sum]
  exact ⟨_, rfl⟩

/-- A transfer moves what is there, so it needs no room above the supply. -/
theorem transfer_ne_overflow (c : Contents) (room : c.supply < Amount.bound)
    (source target : Address) (value : Amount) (owner : Address) :
    c.transfer source target value ≠ .error (.invalidOperation (.balanceOverflow owner)) := by
  unfold transfer
  split
  · nofun
  · next covered =>
      have enough : value.units ≤ (c.balance source).units := Nat.not_lt.1 covered
      split
      · nofun
      · next other =>
          have both := c.balances_le_supply other
          have fits : value.units + (c.balance target).units < Amount.bound := by omega
          obtain ⟨total, sum⟩ := c.increased_eq_ok target fits
          rw [sum]
          nofun

theorem credit_eq_ok_of_room (c : Contents) (a : Address) (value : Amount)
    (room : c.supply + value.units < Amount.bound) : ∃ d, c.credit a value = .ok d := by
  have small := c.balance_le_supply a
  have fits : value.units + (c.balance a).units < Amount.bound := by omega
  obtain ⟨total, sum⟩ := c.increased_eq_ok a fits
  unfold credit
  rw [sum]
  exact ⟨_, rfl⟩

/-! ## Computing the supply -/

theorem units_foldl_saturatingAdd (l : List Account) (start : Amount)
    (room : start.units + Account.total l < Amount.bound) :
    (l.foldl (fun total x => total.saturatingAdd x.balance) start).units =
      start.units + Account.total l := by
  induction l generalizing start with
  | nil => rfl
  | cons x rest ih =>
      have whole : start.units + (x.balance.units + Account.total rest) < Amount.bound := room
      have fits : start.units + x.balance.units < Amount.bound := by omega
      have sum : start.add? x.balance = some ⟨_, fits⟩ := Amount.add?_eq_some_iff.2 rfl
      have next : start.saturatingAdd x.balance = ⟨_, fits⟩ := by
        unfold Amount.saturatingAdd
        rw [sum]
        rfl
      rw [List.foldl_cons, next, ih ⟨_, fits⟩ (by change _ + _ + _ < _; omega)]
      exact Nat.add_assoc _ _ _

theorem units_totalSupply (c : Contents) (room : c.supply < Amount.bound) :
    c.totalSupply.units = c.supply := by
  have folded := units_foldl_saturatingAdd c.accounts.values 0 (by
    change 0 + c.supply < _
    omega)
  rw [Amount.units_zero, Nat.zero_add] at folded
  exact folded

end Contents

end AgentLedger
