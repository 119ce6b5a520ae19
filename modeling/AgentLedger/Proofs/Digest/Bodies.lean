import AgentLedger.Proofs.Digest.Domains

namespace AgentLedger

/-!
# The body behind a hash

The root of a body is the digest of a count and of the hashes of its transactions, each of which
takes forty bytes. The hashes can therefore be read off in their order, however many there are.
Where nothing collides the root stands for the transactions in their order and up to their
signatures, and the hash of a block whose body is the one that it commits to stands for header and
body.
-/

namespace Transaction

variable {ss ts : List Transaction}

theorem map_unsigned_eq (clean : Hash256.NoCollision ((ss ++ ts).map preimage))
    (same : ss.map hash = ts.map hash) : ss.map unsigned = ts.map unsigned := by
  have known {s t : Transaction} (hs : s ∈ ss) (ht : t ∈ ts) (equal : s.hash = t.hash) :
      s.unsigned = t.unsigned :=
    (hash_eq_iff clean (List.mem_append_left ts hs) (List.mem_append_right ss ht)).1 equal
  clear clean
  induction ss generalizing ts with
  | nil =>
      cases ts with
      | nil => rfl
      | cons t ts => cases same
  | cons s ss ih =>
      cases ts with
      | nil => cases same
      | cons t ts =>
          obtain ⟨first, rest⟩ := List.cons.inj same
          have later : ss.map unsigned = ts.map unsigned :=
            ih rest fun hs ht => known (List.mem_cons_of_mem s hs) (List.mem_cons_of_mem t ht)
          rw [List.map_cons, List.map_cons, known List.mem_cons_self List.mem_cons_self first,
            later]

end Transaction

namespace Block

variable {ss ts : List Transaction} {b c : Block}

/-! ## Roots -/

/-- The count has a fixed width, and a hash takes eight bytes for its length beside its own. -/
theorem length_rootPreimage (txs : List Transaction) :
    (rootPreimage txs).length = 26 + 40 * txs.length := by
  have name : (Field.framed (Utf8.encode "agc/txroot")).length = 18 := by decide
  have hashes : ((txs.map fun tx => Field.bytes tx.hash.bytes).flatMap Field.encode).length =
      40 * txs.length := by
    induction txs with
    | nil => rfl
    | cons tx rest ih =>
        simp only [List.map_cons, List.flatMap_cons, List.length_append, Field.encode,
          Field.framed, Bytes.length_bigEndian, tx.hash.length_bytes, ih, List.length_cons]
        omega
  simp only [rootPreimage, Digest.preimage, List.flatMap_cons, List.length_append, name, hashes,
    Field.encode, Bytes.length_bigEndian]
  omega

/-- The length of the whole tells how many hashes there are, even where the count is cut off. -/
theorem map_hash_eq_of_rootPreimage_eq (same : rootPreimage ss = rootPreimage ts) :
    ss.map Transaction.hash = ts.map Transaction.hash := by
  let fields (txs : List Transaction) : List Field :=
    .u64 (.ofNat txs.length) :: txs.map fun tx => .bytes tx.hash.bytes
  have fits (txs : List Transaction) : ∀ f ∈ .text "agc/txroot" :: fields txs, f.Fits := by
    have name : (Field.text "agc/txroot").Fits := by decide
    refine List.forall_mem_cons.2 ⟨name, List.forall_mem_cons.2 ⟨trivial, ?_⟩⟩
    exact List.forall_mem_map.2 fun tx _ => Field.fits_digest tx.hash
  have length : ss.length = ts.length := by
    have whole := congrArg List.length same
    rw [length_rootPreimage, length_rootPreimage] at whole
    omega
  have kinds : (fields ss).map Field.kind = (fields ts).map Field.kind := by
    have repeated (txs : List Transaction) :
        (fields txs).map Field.kind = .u64 :: List.replicate txs.length .bytes := by
      simp only [fields, List.map_cons, List.map_map, Field.kind, Function.comp_def,
        List.map_const']
    rw [repeated, repeated, length]
  obtain ⟨_, equal⟩ := Digest.preimage_inj kinds (fits ss) (fits ts) same
  have framed : Function.Injective fun h : Hash256 => Field.bytes h.bytes :=
    fun _ _ bytes => Hash256.ext (Field.bytes.inj bytes)
  apply List.map_injective_iff.2 framed
  rw [List.map_map, List.map_map]
  exact (List.cons.inj equal).2

theorem transactionRoot_eq_iff (clean : Hash256.NoCollision [rootPreimage ss, rootPreimage ts]) :
    transactionRoot ss = transactionRoot ts ↔
      ss.map Transaction.hash = ts.map Transaction.hash := by
  refine ⟨fun same => map_hash_eq_of_rootPreimage_eq (Hash256.eq_of_noCollision clean same), ?_⟩
  intro hashes
  have length : ss.length = ts.length := by simpa using congrArg List.length hashes
  have fields := congrArg (List.map fun h : Hash256 => Field.bytes h.bytes) hashes
  rw [List.map_map, List.map_map] at fields
  unfold transactionRoot
  rw [length]
  exact congrArg (fun rest => Digest.hash "agc/txroot" (.u64 (.ofNat ts.length) :: rest)) fields

/-! ## Blocks -/

/-- Everything that is digested for the hash of a block and for the hashes in its body. -/
def digested (b : Block) : List Bytes :=
  b.header.preimage :: rootPreimage b.transactions :: b.transactions.map Transaction.preimage

theorem header_eq_of_hash_eq (clean : Hash256.NoCollision (b.digested ++ c.digested))
    (same : b.hash = c.hash) : b.header = c.header :=
  BlockHeader.eq_of_preimage_eq
    (clean _ (by simp [digested]) _ (by simp [digested]) same)

/-- Where nothing collides, the hash of a block whose body is consistent stands for its header and
for the transactions in it, one by one and up to their signatures. The root alone stands for the
hashes of the transactions in their order, and so for the transactions. -/
theorem hash_fixes_ordered_body :
    (∀ b c : Block, Hash256.NoCollision (b.digested ++ c.digested) →
      b.hasConsistentBody = true → c.hasConsistentBody = true → b.hash = c.hash →
      b.header = c.header ∧ b.transactions.length = c.transactions.length ∧
        ∀ (i : Nat) (s t : Transaction), b.transactions[i]? = some s →
          c.transactions[i]? = some t → s.unsigned = t.unsigned) ∧
    (∀ ss ts : List Transaction, Hash256.NoCollision [rootPreimage ss, rootPreimage ts] →
      (transactionRoot ss = transactionRoot ts ↔
        ss.map Transaction.hash = ts.map Transaction.hash)) ∧
    ∀ ss ts : List Transaction,
      Hash256.NoCollision [rootPreimage ss, rootPreimage ts] →
      Hash256.NoCollision ((ss ++ ts).map Transaction.preimage) →
      (transactionRoot ss = transactionRoot ts ↔
        ss.map Transaction.unsigned = ts.map Transaction.unsigned) := by
  have exactly (ss ts : List Transaction)
      (roots : Hash256.NoCollision [rootPreimage ss, rootPreimage ts])
      (clean : Hash256.NoCollision ((ss ++ ts).map Transaction.preimage)) :
      transactionRoot ss = transactionRoot ts ↔
        ss.map Transaction.unsigned = ts.map Transaction.unsigned := by
    rw [transactionRoot_eq_iff roots]
    exact ⟨Transaction.map_unsigned_eq clean, Transaction.map_hash_eq⟩
  refine ⟨fun b c clean consistent consistent' same => ?_, fun _ _ => transactionRoot_eq_iff,
    exactly⟩
  have header := header_eq_of_hash_eq clean same
  have roots : transactionRoot b.transactions = transactionRoot c.transactions := by
    rw [of_decide_eq_true consistent, of_decide_eq_true consistent', header]
  have bodies := (exactly b.transactions c.transactions
    (clean.mono (by simp [digested])) (clean.mono (by grind [digested]))).1 roots
  refine ⟨header, by simpa using congrArg List.length bodies, fun i s t first second => ?_⟩
  have there := congrArg (·[i]?) bodies
  simpa [first, second] using there

/-! A body of two transfers, before and after they are signed. -/

def twoTransfers : List Transaction := [.transfer .zero .zero 1 0 0, .transfer .zero .zero 1 1 0]

def holding (txs : List Transaction) : Block where
  header := { genesis.header with transactionRoot := transactionRoot txs }
  proposerSignature := []
  transactions := txs

theorem hasConsistentBody_holding (txs : List Transaction) :
    (holding txs).hasConsistentBody = true := decide_eq_true rfl

/-- The signatures make no difference to the hash and are all that differs. The root changes if the
two transfers change places. -/
theorem two_transfers_stay_in_order :
    let b := holding twoTransfers
    let c := holding (twoTransfers.map (·.withSignature [1]))
    b ≠ c ∧ b.hash = c.hash ∧ b.header = c.header ∧
      (∀ (i : Nat) (s t : Transaction), b.transactions[i]? = some s →
        c.transactions[i]? = some t → s.unsigned = t.unsigned) ∧
      transactionRoot twoTransfers ≠ transactionRoot twoTransfers.reverse := by
  intro b c
  obtain ⟨blocks, _, bodies⟩ := hash_fixes_ordered_body
  let inputs := rootPreimage twoTransfers.reverse :: b.digested
  have nodup : (inputs.map Hash256.ofData).Nodup := by decide +kernel
  have clean {asked : List Bytes} (covered : ∀ a ∈ asked, a ∈ inputs) :
      Hash256.NoCollision asked := Hash256.noCollision_of_nodup covered nodup
  have signed : c.digested = b.digested := rfl
  obtain ⟨header, _, each⟩ := blocks b c (clean (by grind))
    (hasConsistentBody_holding _) (hasConsistentBody_holding _) rfl
  refine ⟨fun same => ?_, rfl, header, each, fun root => ?_⟩
  · exact absurd (congrArg Block.transactions same) (by decide)
  · have equal := (bodies _ _ (clean (by grind [digested, holding]))
      (clean (by grind [digested, holding]))).1 root
    exact absurd equal (by decide)

end Block

end AgentLedger
