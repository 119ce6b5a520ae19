import AgentLedger.Policy
import AgentLedger.SortedMap
import AgentLedger.Transaction
import AgentLedger.Wire.Basic

namespace AgentLedger

/-!
# Pool of pending transactions

Pending transactions are kept in the order in which blocks take them: the highest gas price first,
and among equal prices by hash or by arrival. A full pool takes no more, and a transaction whose
hash is pending is not taken twice. There are two indexes, by hash and by place, and a pool is built
with the evidence that they match.
-/

inductive TieBreak where
  /-- The same on every node. -/
  | hash
  | arrival
deriving DecidableEq, Repr, Inhabited

namespace TieBreak

def name : TieBreak → String
  | hash => "hash"
  | arrival => "arrival"

instance : Wire TieBreak where
  toJson t := .ofText t.name
  ofJson? := Json.oneOf? ([hash, arrival].map fun t => (t.name, t))

end TieBreak

/-- The place of a pending transaction. -/
structure Rank where
  gasPrice : Amount
  sequence : UInt64
  hash : Hash256
deriving DecidableEq

namespace Rank

def order (a b : Rank) : Ordering :=
  compareLex (fun a b => compare b.gasPrice a.gasPrice)
    (compareLex (compareOn sequence) (compareOn hash)) a b

instance : Ord Rank := ⟨order⟩

instance : Std.TransOrd Rank :=
  have : Std.TransCmp (fun a b : Rank => compare b.gasPrice a.gasPrice) :=
    inferInstanceAs (Std.TransCmp fun a b => compareOn gasPrice b a)
  inferInstanceAs (Std.TransCmp (compareLex (fun a b : Rank => compare b.gasPrice a.gasPrice)
    (compareLex (compareOn sequence) (compareOn hash))))

theorem compare_eq_iff {a b : Rank} : compare a b = .eq ↔ a = b := by
  change order a b = .eq ↔ a = b
  simp only [order, compareLex_eq_eq, compareOn, Std.compare_eq_iff_eq]
  cases a
  cases b
  grind

instance : Std.LawfulEqOrd Rank where
  eq_of_compare := compare_eq_iff.1
  compare_self := compare_eq_iff.2 rfl

end Rank

/-- The place of a transaction that is admitted as number `sequence`. -/
def TieBreak.rank (t : TieBreak) (sequence : UInt64) (gasPrice : Amount) (hash : Hash256) : Rank :=
  match t with
  | .hash => ⟨gasPrice, 0, hash⟩
  | .arrival => ⟨gasPrice, sequence, hash⟩

@[simp] theorem TieBreak.hash_rank (t : TieBreak) (sequence : UInt64) (gasPrice : Amount)
    (hash : Hash256) : (t.rank sequence gasPrice hash).hash = hash := by
  cases t with
  | hash => rfl
  | arrival => rfl

/-- The order has an entry for each transaction and no other, at the place that the transaction's
price, number and hash give it. -/
structure Pool.Matched (tieBreak : TieBreak) (transactions : SortedMap Hash256 (Rank × Transaction))
    (order : SortedMap Rank Hash256) : Prop where
  placed : ∀ rank hash,
    order.get? rank = some hash ↔ ∃ tx, transactions.get? hash = some (rank, tx)
  ranked : ∀ hash rank tx, transactions.get? hash = some (rank, tx) →
    tx.hash = hash ∧ ∃ sequence, rank = tieBreak.rank sequence tx.gasPrice hash

structure Pool where
  capacity : UInt64
  tieBreak : TieBreak
  transactions : SortedMap Hash256 (Rank × Transaction)
  order : SortedMap Rank Hash256
  /-- The number of the next transaction that is admitted. -/
  nextSequence : UInt64
  matched : Pool.Matched tieBreak transactions order

namespace Pool

namespace Matched

variable {tieBreak : TieBreak} {transactions : SortedMap Hash256 (Rank × Transaction)}
  {order : SortedMap Rank Hash256} {rank : Rank} {hash : Hash256} {tx : Transaction}

theorem empty : Matched tieBreak .empty .empty where
  placed := by simp
  ranked := by simp

theorem hash_eq (m : Matched tieBreak transactions order)
    (found : transactions.get? hash = some (rank, tx)) : rank.hash = hash := by
  obtain ⟨_, _, rfl⟩ := m.ranked hash rank tx found
  rw [TieBreak.hash_rank]

theorem insert (m : Matched tieBreak transactions order)
    (fresh : transactions.get? tx.hash = none) (sequence : UInt64) :
    Matched tieBreak
      (transactions.insert tx.hash (tieBreak.rank sequence tx.gasPrice tx.hash, tx))
      (order.insert (tieBreak.rank sequence tx.gasPrice tx.hash) tx.hash) where
  placed rank hash := by
    rw [SortedMap.get?_insert, SortedMap.get?_insert]
    split
    · next here =>
        subst here
        rw [Option.some.injEq]
        constructor
        · rintro rfl
          exact ⟨tx, if_pos rfl⟩
        · rintro ⟨other, found⟩
          split at found
          · next same => exact same.symm
          · next distinct => exact absurd (m.hash_eq found).symm (by simpa using distinct)
    · next elsewhere =>
        rw [m.placed]
        split
        · next same =>
            subst same
            simp [fresh, Ne.symm elsewhere]
        · exact Iff.rfl
  ranked hash rank other found := by
    rw [SortedMap.get?_insert] at found
    split at found
    · next same =>
        cases found
        exact ⟨same.symm, sequence, by rw [same]⟩
    · exact m.ranked hash rank other found

theorem erase (m : Matched tieBreak transactions order)
    (found : transactions.get? hash = some (rank, tx)) :
    Matched tieBreak (transactions.erase hash) (order.erase rank) where
  placed place name := by
    have only (other : Transaction) (stored : transactions.get? name = some (place, other)) :
        place = rank ↔ name = hash := by
      constructor
      · rintro rfl
        rw [← m.hash_eq stored, m.hash_eq found]
      · rintro rfl
        rw [found] at stored
        cases stored
        rfl
    rw [SortedMap.get?_erase, SortedMap.get?_erase]
    constructor
    · intro listed
      split at listed
      · cases listed
      · next elsewhere =>
          obtain ⟨other, stored⟩ := (m.placed place name).1 listed
          rw [only other stored] at elsewhere
          exact ⟨other, by rw [if_neg elsewhere, stored]⟩
    · rintro ⟨other, stored⟩
      split at stored
      · cases stored
      · next distinct =>
          rw [← only other stored] at distinct
          rw [if_neg distinct]
          exact (m.placed place name).2 ⟨other, stored⟩
  ranked name place other stored := by
    rw [SortedMap.get?_erase] at stored
    split at stored
    · cases stored
    · exact m.ranked name place other stored

variable {rest : List (Rank × Hash256)}

theorem first_stored (m : Matched tieBreak transactions order)
    (first : order.entries = (rank, hash) :: rest) :
    ∃ tx, transactions.get? hash = some (rank, tx) := by
  rw [← m.placed, ← SortedMap.mem_entries_iff, first]
  exact List.mem_cons_self

theorem drop_one (m : Matched tieBreak transactions order)
    (first : order.entries = (rank, hash) :: rest) :
    Matched tieBreak (transactions.erase hash) (order.drop 1) := by
  obtain ⟨tx, found⟩ := m.first_stored first
  rw [SortedMap.drop_one_eq_erase first]
  exact m.erase found

end Matched

def withCapacity (capacity : UInt64) (tieBreak : TieBreak) : Pool :=
  ⟨capacity, tieBreak, .empty, .empty, 0, .empty⟩

def new : Pool := withCapacity Policy.poolCapacity .hash

def size (p : Pool) : Nat := p.transactions.size

def isEmpty (p : Pool) : Bool := p.size = 0

def contains (p : Pool) (hash : Hash256) : Bool := p.transactions.contains hash

/-- Puts a transaction into both indexes. -/
def insert (p : Pool) (tx : Transaction) (fresh : p.transactions.get? tx.hash = none) : Pool :=
  let hash := tx.hash
  let rank := p.tieBreak.rank p.nextSequence tx.gasPrice hash
  { p with
    transactions := p.transactions.insert hash (rank, tx)
    order := p.order.insert rank hash
    nextSequence := p.nextSequence + 1
    matched := p.matched.insert fresh p.nextSequence }

/-- Admits a transaction, and says by which hash it is known. -/
def add (p : Pool) (tx : Transaction) : Except ChainError (Hash256 × Pool) :=
  if known : p.contains tx.hash then .error (.duplicateTransaction tx.hash)
  else if p.capacity.toNat ≤ p.size then .error .poolFull
  else .ok (tx.hash, p.insert tx (by simpa [contains, SortedMap.contains] using known))

/-- Takes the first place out of both indexes. -/
def popFirst (p : Pool) : Option (Transaction × Pool) :=
  match first : p.order.entries with
  | [] => none
  | (rank, hash) :: rest =>
      match found : p.transactions.get? hash with
      | none => absurd (p.matched.first_stored first) (by simp [found])
      | some (_, tx) => some (tx, { p with
          transactions := p.transactions.erase hash
          order := p.order.drop 1
          matched := p.matched.drop_one first })

/-- Takes out the first `count` transactions, or all if there are fewer. -/
def popBatch (p : Pool) : (count : Nat) → List Transaction × Pool
  | 0 => ([], p)
  | count + 1 =>
      match p.popFirst with
      | none => ([], p)
      | some (tx, rest) =>
          let (batch, left) := rest.popBatch count
          (tx :: batch, left)

def remove (p : Pool) (hash : Hash256) : Option (Transaction × Pool) :=
  match found : p.transactions.get? hash with
  | none => none
  | some (rank, tx) => some (tx, { p with
      transactions := p.transactions.erase hash
      order := p.order.erase rank
      matched := p.matched.erase found })

end Pool

end AgentLedger
