import AgentLedger.Block
import AgentLedger.Proofs.Digest.Preimage
import AgentLedger.Transaction.Draft

namespace AgentLedger

/-!
# Domains

The name of the domain stands in front of all fields and has its length in front of it, so it can
be read off a byte string whatever follows. What is digested as a transaction is therefore never
taken for a header, for the body of a block or for the place of a contract.
-/

namespace Digest

variable {d e : String} {fs gs : List Field}

theorem preimage_inj (kinds : fs.map Field.kind = gs.map Field.kind)
    (hf : ∀ f ∈ .text d :: fs, f.Fits) (hg : ∀ g ∈ .text e :: gs, g.Fits)
    (h : preimage d fs = preimage e gs) : d = e ∧ fs = gs := by
  have kinds : (Field.text d :: fs).map Field.kind = (Field.text e :: gs).map Field.kind :=
    congrArg (Field.Kind.text :: ·) kinds
  have whole (d : String) (fs : List Field) :
      preimage d fs = (.text d :: fs).flatMap Field.encode ++ [] := by
    rw [List.append_nil]
    rfl
  rw [whole, whole] at h
  obtain ⟨same, _⟩ := Field.flatMap_encode_append_inj kinds hf hg h
  obtain ⟨domain, fields⟩ := List.cons.inj same
  exact ⟨Field.text.inj domain, fields⟩

/-- The domain is told from the front alone, so the fields may be of any kinds. -/
theorem domain_eq_of_preimage_eq (hd : (Field.text d).Fits) (he : (Field.text e).Fits)
    (h : preimage d fs = preimage e gs) : d = e := by
  obtain ⟨same, _⟩ := Field.encode_append_inj (f := .text d) (g := .text e) rfl hd he h
  exact Field.text.inj same

end Digest

/-! ## Headers, bodies and contracts -/

namespace BlockHeader

def preimage (h : BlockHeader) : Bytes := Digest.preimage "agc/header" h.digestFields

theorem digestFields_injective {g h : BlockHeader} (same : g.digestFields = h.digestFields) :
    g = h := by
  obtain ⟨version, height, timestamp, previous, state, root, agent, proposer⟩ := g
  simp only [digestFields, List.cons.injEq, Field.u32.injEq, Field.u64.injEq, Field.i64.injEq,
    Field.bytes.injEq] at same
  obtain ⟨rfl, rfl, rfl, previous, state, root, agent, proposer, -⟩ := same
  simp only [Hash256.ext previous, Hash256.ext state, Hash256.ext root, Hash256.ext agent,
    Address.ext proposer]

theorem eq_of_preimage_eq {g h : BlockHeader} (same : g.preimage = h.preimage) : g = h := by
  have fits (h : BlockHeader) : ∀ f ∈ .text "agc/header" :: h.digestFields, f.Fits := by
    have name : (Field.text "agc/header").Fits := by decide
    simp only [digestFields, List.forall_mem_cons, List.not_mem_nil, false_imp_iff, implies_true]
    exact ⟨name, trivial, trivial, trivial, Field.fits_digest _, Field.fits_digest _,
      Field.fits_digest _, Field.fits_digest _, Field.fits_address _, trivial⟩
  have kinds : g.digestFields.map Field.kind = h.digestFields.map Field.kind := rfl
  exact digestFields_injective (Digest.preimage_inj kinds (fits g) (fits h) same).2

end BlockHeader

namespace Block

/-- What the root of a body is the digest of. -/
def rootPreimage (txs : List Transaction) : Bytes :=
  Digest.preimage "agc/txroot"
    (.u64 (.ofNat txs.length) :: txs.map fun tx => .bytes tx.hash.bytes)

end Block

/-- What the address of a contract is derived from. -/
def contractPreimage (deployer : Address) (nonce : UInt64) : Bytes :=
  Digest.preimage "agc/contract" [.bytes deployer.bytes, .u64 nonce]

theorem contractAddress_eq (deployer : Address) (nonce : UInt64) :
    contractAddress deployer nonce =
      .ofPublicKey (Hash256.ofData (contractPreimage deployer nonce)).bytes := rfl

theorem eq_of_contractPreimage_eq {a b : Address} {m n : UInt64}
    (same : contractPreimage a m = contractPreimage b n) : a = b ∧ m = n := by
  let fields (a : Address) (n : UInt64) : List Field := [.bytes a.bytes, .u64 n]
  have fits (a : Address) (n : UInt64) : ∀ f ∈ .text "agc/contract" :: fields a n, f.Fits := by
    have name : (Field.text "agc/contract").Fits := by decide
    simp only [fields, List.forall_mem_cons, List.not_mem_nil, false_imp_iff, implies_true]
    exact ⟨name, Field.fits_address a, trivial, trivial⟩
  have kinds : (fields a m).map Field.kind = (fields b n).map Field.kind := rfl
  obtain ⟨_, equal⟩ := Digest.preimage_inj kinds (fits a m) (fits b n) same
  simp only [fields, List.cons.injEq, Field.bytes.injEq, Field.u64.injEq] at equal
  exact ⟨Address.ext equal.1, equal.2.1⟩

/-! ## What is digested -/

theorem Hash256.eq_of_noCollision {a b : Bytes} (clean : NoCollision [a, b])
    (same : ofData a = ofData b) : a = b :=
  clean a List.mem_cons_self b (List.mem_cons_of_mem a List.mem_cons_self) same

theorem Hash256.noCollision_pair {a b : Bytes} (other : ofData a ≠ ofData b) :
    NoCollision [a, b] :=
  noCollision_of_nodup (fun _ mem => mem) (by simpa using other)

/-- Byte strings that are digested under known kinds of fields are equal only if the domains and all
fields are, as long as each length can be told in eight bytes, and those of different domains differ
whatever the fields are. Where nothing collides a hash therefore stands for a transaction up to its
signature or for a header, and never for both or for the body of a block, and no two deployments
lead to one place. -/
theorem Digest.fields_never_alias :
    (∀ (schema : List Field.Kind) (d e : String) (fs gs : List Field),
      fs.map Field.kind = schema → gs.map Field.kind = schema →
      (∀ f ∈ .text d :: fs, f.Fits) → (∀ g ∈ .text e :: gs, g.Fits) →
      preimage d fs = preimage e gs → d = e ∧ fs = gs) ∧
    (∀ (d e : String) (fs gs : List Field), (Field.text d).Fits → (Field.text e).Fits → d ≠ e →
      preimage d fs ≠ preimage e gs) ∧
    (∀ s t : Transaction, Hash256.NoCollision [s.preimage, t.preimage] →
      (s.hash = t.hash ↔ s.unsigned = t.unsigned)) ∧
    (∀ g h : BlockHeader, Hash256.NoCollision [g.preimage, h.preimage] →
      (g.hash = h.hash ↔ g = h)) ∧
    (∀ (a b : Address) (m n : UInt64),
      contractAddress a m = .ofPublicKey (Hash256.ofData (contractPreimage a m)).bytes ∧
        ((a, m) ≠ (b, n) → contractPreimage a m ≠ contractPreimage b n)) ∧
    (∀ (tx : Transaction) (h : BlockHeader), Hash256.NoCollision [tx.preimage, h.preimage] →
      tx.hash ≠ h.hash) ∧
    ∀ (tx : Transaction) (txs : List Transaction),
      Hash256.NoCollision [tx.preimage, Block.rootPreimage txs] →
      tx.hash ≠ Block.transactionRoot txs := by
  have apart {d e : String} {fs gs : List Field} (hd : (Field.text d).Fits)
      (he : (Field.text e).Fits) (other : d ≠ e) : preimage d fs ≠ preimage e gs :=
    fun same => other (domain_eq_of_preimage_eq hd he same)
  refine ⟨?_, fun _ _ _ _ hd he other => apart hd he other, ?_, ?_, ?_, ?_, ?_⟩
  · intro schema d e fs gs kinds kinds' hf hg same
    exact preimage_inj (kinds.trans kinds'.symm) hf hg same
  · intro s t clean
    refine ⟨fun same => ?_, Transaction.hash_eq_of_unsigned_eq⟩
    exact Transaction.unsigned_eq_of_preimage_eq (Hash256.eq_of_noCollision clean same)
  · intro g h clean
    refine ⟨fun same => BlockHeader.eq_of_preimage_eq (Hash256.eq_of_noCollision clean same), ?_⟩
    rintro rfl
    rfl
  · intro a b m n
    refine ⟨contractAddress_eq a m, fun other same => ?_⟩
    obtain ⟨rfl, rfl⟩ := eq_of_contractPreimage_eq same
    exact other rfl
  · intro tx h clean same
    exact apart (by decide) (by decide) (by decide) (Hash256.eq_of_noCollision clean same)
  · intro tx txs clean same
    exact apart (by decide) (by decide) (by decide) (Hash256.eq_of_noCollision clean same)

/-- Two ways to cut one text and two domains with nothing in them are told apart, and so are a
price, a height and a nonce, and a transaction from the genesis block and from a body that holds
it. -/
theorem Digest.short_fields_never_alias :
    let cheap := Transaction.transfer .zero .zero 0 0 0
    let dear := Transaction.transfer .zero .zero 0 0 1
    preimage "test" [.bytes [97, 98], .bytes [99]] ≠
      preimage "test" [.bytes [97], .bytes [98, 99]] ∧
    preimage "agc/tx" [] ≠ preimage "agc/txroot" [] ∧
    cheap.hash ≠ dear.hash ∧
    Block.genesis.header.hash ≠ { Block.genesis.header with height := 1 }.hash ∧
    contractPreimage .zero 0 ≠ contractPreimage .zero 1 ∧
    cheap.hash ≠ Block.genesis.header.hash ∧ cheap.hash ≠ Block.transactionRoot [cheap] := by
  intro cheap dear
  obtain ⟨fields, domains, transactions, headers, contracts, header, body⟩ := fields_never_alias
  refine ⟨fun same => ?_, ?_, fun same => ?_, fun same => ?_, ?_, ?_, ?_⟩
  · have cut := (fields [.bytes, .bytes] _ _ _ _ rfl rfl (by decide) (by decide) same).2
    exact absurd cut (by decide)
  · exact domains _ _ _ _ (by decide) (by decide) (by decide)
  · have clean : Hash256.NoCollision [cheap.preimage, dear.preimage] :=
      Hash256.noCollision_pair (by decide +kernel)
    exact absurd ((transactions cheap dear clean).1 same) (by decide +kernel)
  · have clean := Hash256.noCollision_pair (a := Block.genesis.header.preimage)
      (b := { Block.genesis.header with height := 1 }.preimage) (by decide +kernel)
    exact absurd ((headers _ _ clean).1 same) (by decide +kernel)
  · exact (contracts _ _ _ _).2 (by decide)
  · exact header cheap _ (Hash256.noCollision_pair (by decide +kernel))
  · exact body cheap _ (Hash256.noCollision_pair (by decide +kernel))

end AgentLedger
