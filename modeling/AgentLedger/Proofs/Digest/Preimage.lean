import AgentLedger.Transaction
import Mathlib.Data.List.Nodup

namespace AgentLedger

/-!
# What a digest is taken of

The bytes of a list of fields can be read back if it is known of what kind the fields are, as long
as no field is longer than its length can say. Two transactions with one preimage are therefore
equal but for their signatures, and so are two with one hash if no two preimages collide.
-/

theorem Bytes.bigEndian_append_inj {w m n : Nat} {r s : Bytes} (hm : m < span w) (hn : n < span w)
    (h : bigEndian w m ++ r = bigEndian w n ++ s) : m = n ∧ r = s := by
  obtain ⟨front, rest⟩ := List.append_inj h (by simp)
  have number := congrArg toNat front
  rw [toNat_bigEndian, toNat_bigEndian, Nat.mod_eq_of_lt hm, Nat.mod_eq_of_lt hn] at number
  exact ⟨number, rest⟩

namespace Field

inductive Kind where
  | u8
  | u32
  | u64
  | i64
  | u128
  | bytes
  | text
  | optional
deriving DecidableEq

def kind : Field → Kind
  | u8 _ => .u8
  | u32 _ => .u32
  | u64 _ => .u64
  | i64 _ => .i64
  | u128 _ => .u128
  | bytes _ => .bytes
  | text _ => .text
  | optional _ => .optional

/-- The length of the field can be told in eight bytes. -/
def Fits : Field → Prop
  | bytes bs | optional (some bs) => bs.length < UInt64.size
  | text s => (Utf8.encode s).length < UInt64.size
  | _ => True

instance : DecidablePred Fits
  | bytes bs | optional (some bs) => inferInstanceAs (Decidable (bs.length < UInt64.size))
  | text s => inferInstanceAs (Decidable ((Utf8.encode s).length < UInt64.size))
  | u8 _ | u32 _ | u64 _ | i64 _ | u128 _ | optional none => .isTrue trivial

theorem fits_address (a : Address) : (bytes a.bytes).Fits := by
  change a.bytes.length < UInt64.size
  rw [a.length_bytes]
  decide

theorem fits_digest (h : Hash256) : (bytes h.bytes).Fits := by
  change h.bytes.length < UInt64.size
  rw [h.length_bytes]
  decide

theorem framed_append_inj {a b r s : Bytes} (ha : a.length < UInt64.size)
    (hb : b.length < UInt64.size) (h : framed a ++ r = framed b ++ s) : a = b ∧ r = s := by
  unfold framed at h
  rw [List.append_assoc, List.append_assoc] at h
  obtain ⟨length, rest⟩ := Bytes.bigEndian_append_inj (w := 8) ha hb h
  exact List.append_inj rest length

/-- Nothing can be taken for the last field but the field itself, however long it is. -/
theorem framed_inj {a b : Bytes} (h : framed a = framed b) : a = b :=
  (List.append_inj h (by simp)).2

/-- A field that is known to be of some kind can be read off the front of a byte string. -/
theorem encode_append_inj {f g : Field} {r s : Bytes} (kind : f.kind = g.kind) (hf : f.Fits)
    (hg : g.Fits) (h : f.encode ++ r = g.encode ++ s) : f = g ∧ r = s := by
  cases f with
  | u8 v =>
      cases g with
      | u8 w =>
          obtain ⟨same, rest⟩ := List.cons.inj h
          exact ⟨congrArg u8 same, rest⟩
      | _ => cases kind
  | u32 v =>
      cases g with
      | u32 w =>
          obtain ⟨same, rest⟩ := Bytes.bigEndian_append_inj (w := 4) v.toNat_lt w.toNat_lt h
          exact ⟨congrArg u32 (UInt32.toNat_inj.1 same), rest⟩
      | _ => cases kind
  | u64 v =>
      cases g with
      | u64 w =>
          obtain ⟨same, rest⟩ := Bytes.bigEndian_append_inj (w := 8) v.toNat_lt w.toNat_lt h
          exact ⟨congrArg u64 (UInt64.toNat_inj.1 same), rest⟩
      | _ => cases kind
  | i64 v =>
      cases g with
      | i64 w =>
          obtain ⟨same, rest⟩ := Bytes.bigEndian_append_inj (w := 8) v.toUInt64.toNat_lt
            w.toUInt64.toNat_lt h
          have same := congrArg UInt64.toInt64 (UInt64.toNat_inj.1 same)
          rw [Int64.toInt64_toUInt64, Int64.toInt64_toUInt64] at same
          exact ⟨congrArg i64 same, rest⟩
      | _ => cases kind
  | u128 v =>
      cases g with
      | u128 w =>
          obtain ⟨same, rest⟩ := Bytes.bigEndian_append_inj (w := 16) v.units_lt w.units_lt h
          exact ⟨congrArg u128 (Amount.ext same), rest⟩
      | _ => cases kind
  | bytes a =>
      cases g with
      | bytes b =>
          obtain ⟨same, rest⟩ := framed_append_inj hf hg h
          exact ⟨congrArg bytes same, rest⟩
      | _ => cases kind
  | text a =>
      cases g with
      | text b =>
          obtain ⟨same, rest⟩ := framed_append_inj hf hg h
          exact ⟨congrArg text (Utf8.encode_injective same), rest⟩
      | _ => cases kind
  | optional a =>
      cases g with
      | optional b =>
          cases a with
          | none =>
              cases b with
              | none => exact ⟨rfl, (List.cons.inj h).2⟩
              | some b => cases (List.cons.inj h).1
          | some a =>
              cases b with
              | none => cases (List.cons.inj h).1
              | some b =>
                  obtain ⟨same, rest⟩ := framed_append_inj hf hg (List.cons.inj h).2
                  exact ⟨congrArg (fun bs => optional (some bs)) same, rest⟩
      | _ => cases kind

theorem flatMap_encode_append_inj {fs gs : List Field} {r s : Bytes}
    (kinds : fs.map kind = gs.map kind) (hf : ∀ f ∈ fs, f.Fits) (hg : ∀ g ∈ gs, g.Fits)
    (h : fs.flatMap encode ++ r = gs.flatMap encode ++ s) : fs = gs ∧ r = s := by
  induction fs generalizing gs with
  | nil =>
      cases gs with
      | nil => exact ⟨rfl, h⟩
      | cons g gs => cases kinds
  | cons f fs ih =>
      cases gs with
      | nil => cases kinds
      | cons g gs =>
          rw [List.map_cons, List.map_cons] at kinds
          obtain ⟨kind, others⟩ := List.cons.inj kinds
          rw [List.flatMap_cons, List.flatMap_cons, List.append_assoc, List.append_assoc] at h
          obtain ⟨rfl, rest⟩ :=
            encode_append_inj kind (hf f List.mem_cons_self) (hg g List.mem_cons_self) h
          obtain ⟨rfl, same⟩ := ih others (fun f mem => hf f (List.mem_cons_of_mem _ mem))
            (fun g mem => hg g (List.mem_cons_of_mem _ mem)) rest
          exact ⟨rfl, same⟩

end Field

/-- No two of the inputs are different and have the same digest. -/
def Hash256.NoCollision (inputs : List Bytes) : Prop :=
  ∀ a ∈ inputs, ∀ b ∈ inputs, ofData a = ofData b → a = b

theorem Hash256.NoCollision.mono {inputs more : List Bytes} (clean : NoCollision more)
    (covered : ∀ a ∈ inputs, a ∈ more) : NoCollision inputs :=
  fun a ha b hb => clean a (covered a ha) b (covered b hb)

theorem Hash256.noCollision_of_nodup {inputs distinct : List Bytes}
    (covered : ∀ a ∈ inputs, a ∈ distinct) (nodup : (distinct.map ofData).Nodup) :
    NoCollision inputs := fun a ha b hb same =>
  List.inj_on_of_nodup_map nodup (covered a ha) (covered b hb) same

namespace Transaction

/-- What the hash is the digest of. -/
def preimage (tx : Transaction) : Bytes := Digest.preimage "agc/tx" tx.digestFields

/-- The transaction without its signature, which the hash leaves out. -/
def unsigned (tx : Transaction) : Transaction := { tx with signature := [] }

variable {s t : Transaction} {txs : List Transaction}

@[simp] theorem hash_unsigned (tx : Transaction) : tx.unsigned.hash = tx.hash := rfl

theorem hash_eq_of_unsigned_eq (h : s.unsigned = t.unsigned) : s.hash = t.hash := by
  rw [← s.hash_unsigned, ← t.hash_unsigned, h]

theorem map_hash_eq {ss ts : List Transaction} (same : ss.map unsigned = ts.map unsigned) :
    ss.map hash = ts.map hash := by
  have hashes := congrArg (List.map hash) same
  rw [List.map_map, List.map_map] at hashes
  exact hashes

theorem unsigned_eq_of_preimage_eq (h : s.preimage = t.preimage) : s.unsigned = t.unsigned := by
  -- The payload stands last, so that it is told apart at any length.
  let front (tx : Transaction) : List Field :=
    [.text "agc/tx", .u8 tx.kind.code, .bytes tx.sender.bytes,
      .optional (tx.recipient.map (·.bytes)), .u128 tx.value, .u64 tx.gasLimit,
      .u128 tx.gasPrice, .u64 tx.nonce]
  have split (tx : Transaction) :
      tx.preimage = (front tx).flatMap Field.encode ++ Field.framed tx.payload := by
    simp [preimage, Digest.preimage, digestFields, front, Field.encode]
  have fits (tx : Transaction) : ∀ f ∈ front tx, f.Fits := by
    have recipient : (Field.optional (tx.recipient.map (·.bytes))).Fits := by
      cases tx.recipient with
      | none => trivial
      | some a => exact Field.fits_address a
    have name : (Field.text "agc/tx").Fits := by decide
    simp only [front, List.forall_mem_cons, List.not_mem_nil, false_imp_iff, implies_true]
    exact ⟨name, trivial, Field.fits_address tx.sender, recipient, trivial, trivial, trivial,
      trivial, trivial⟩
  have kinds : (front s).map Field.kind = (front t).map Field.kind := rfl
  rw [split s, split t] at h
  obtain ⟨same, payload⟩ := Field.flatMap_encode_append_inj kinds (fits s) (fits t) h
  replace payload := Field.framed_inj payload
  simp only [front, List.cons.injEq, Field.u8.injEq, Field.bytes.injEq, Field.optional.injEq,
    Field.u128.injEq, Field.u64.injEq] at same
  obtain ⟨-, kind, sender, recipient, value, gasLimit, gasPrice, nonce, -⟩ := same
  replace kind := TransactionKind.code_injective kind
  replace sender := Address.ext sender
  replace recipient := Option.map_injective (fun _ _ => Address.ext) recipient
  simp only [unsigned, kind, sender, recipient, value, gasLimit, gasPrice, nonce, payload]

/-- Where nothing collides, a hash stands for a transaction up to its signature. -/
theorem hash_eq_iff (clean : Hash256.NoCollision (txs.map preimage)) (hs : s ∈ txs) (ht : t ∈ txs) :
    s.hash = t.hash ↔ s.unsigned = t.unsigned := by
  refine ⟨fun same => ?_, hash_eq_of_unsigned_eq⟩
  exact unsigned_eq_of_preimage_eq
    (clean _ (List.mem_map_of_mem hs) _ (List.mem_map_of_mem ht) same)

end Transaction

end AgentLedger
