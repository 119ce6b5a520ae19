import AgentLedger.Config
import AgentLedger.Proofs.Json.Records
import AgentLedger.Proofs.Json.Texts
import AgentLedger.Proofs.Wire.Lawful

namespace AgentLedger

/-!
# Partial configurations

A configuration file overrides the fields that it names and no others, in whatever order it names
them and whatever else it holds. What is loaded has a chain id and no counter that is zero.
-/

open Wire (Lawful toJson ofJson?)

instance : Lawful TieBreak where
  ofJson?_toJson t := by cases t <;> rfl
  readable_toJson t := Json.readable_text (Utf8.encode t.name)

instance : Lawful NoncePolicy where
  ofJson?_toJson p := by cases p <;> rfl
  readable_toJson p := Json.readable_text (Utf8.encode p.name)

theorem Json.mapM_of_forall₂ {α β : Type} {read : β → Option α} {l : List α} {items : List β}
    (h : List.Forall₂ (fun a b => read b = some a) l items) : items.mapM read = some l := by
  induction h with
  | nil => rfl
  | cons head _ ih => simp [head, ih]

/-- The value is a written map with its members in any order. -/
inductive Wire.MapForm {κ α : Type} [Ord κ] [Wire.Key κ] [Wire α] (m : SortedMap κ α) :
    Json → Prop where
  | intro {entries : List (κ × α)} (order : entries.Perm m.entries) :
      MapForm m (.record (entries.map fun e => (Wire.Key.text e.1, toJson e.2)))

theorem Wire.MapForm.ofJson? {m : SortedMap Address Amount} {v : Json} (form : MapForm m v) :
    Wire.ofJson? v = some m := by
  obtain ⟨order⟩ := form
  rw [Wire.ofJson?_entries, SortedMap.ofList_of_perm order]

/-! ## Validators of the genesis -/

namespace Validator

/-- What may be written of a reputation. It is left out only if it is zero. -/
inductive ReputationMember (reputation : Float) : List (String × Json) → Prop where
  | omitted (zero : reputation = 0) : ReputationMember reputation []
  | given {n : Json.Numeral} (reads : n.toFloat? = some reputation) :
      ReputationMember reputation [("reputation_score", .number n)]

/-- What is always written of a validator of the genesis. -/
def genesisMembers (v : Validator) : List (String × Json) :=
  [("address", toJson v.address), ("public_key", .ofHex v.publicKey), ("stake", toJson v.stake)]

theorem readable_genesisMembers (v : Validator) : ∀ f ∈ v.genesisMembers, f.2.Readable := by
  simp [genesisMembers]

theorem textual_genesisMembers (v : Validator) : ∀ f ∈ v.genesisMembers, f.2.Textual := by
  simp only [genesisMembers, List.forall_mem_cons]
  exact ⟨Json.textual_ofText _, Json.textual_ofHex _, Json.textual_number _, nofun⟩

def genesisNames : List String := ["address", "public_key", "stake", "reputation_score"]

/-- A validator is read in the same way from its members in any order. -/
theorem genesisOfJson?_of_shuffles {known members : List (String × Json)}
    (shuffled : Json.Shuffles genesisNames known members) (distinct : (known.map (·.1)).Nodup) :
    genesisOfJson? (.record members) = genesisOfJson? (.record known) := by
  have found (name : String) (read : name ∈ genesisNames) := shuffled.lookup distinct read
  have record := shuffled.record?_record distinct
  have ordered := (Json.Shuffles.refl genesisNames known).record?_record distinct
  rw [genesisNames] at record ordered
  simp only [genesisOfJson?, record, ordered, Option.bind_eq_bind, Option.bind_some,
    Json.Record.required, Json.Record.defaulted, found "address" (by decide),
    found "public_key" (by decide), found "stake" (by decide),
    found "reputation_score" (by decide)]

/-- The value is a form of a validator of the genesis, with its members in any order and among
members with other names. -/
inductive GenesisForm (v : Validator) : Json → Prop where
  | intro {rest members : List (String × Json)}
      (fresh : v = .new v.address v.publicKey v.stake v.reputation)
      (written : ReputationMember v.reputation rest)
      (shuffled : Json.Shuffles genesisNames (v.genesisMembers ++ rest) members) :
      GenesisForm v (.record members)

theorem GenesisForm.genesisOfJson? {v : Validator} {j : Json} (form : GenesisForm v j) :
    genesisOfJson? j = some v := by
  obtain ⟨fresh, written, shuffled⟩ := form
  rw [fresh]
  cases written with
  | omitted zero =>
      rw [zero, genesisOfJson?_of_shuffles shuffled (by simp [genesisMembers])]
      exact Json.bind_record? (by simp [genesisMembers]) (by simp [genesisMembers, new])
  | given reads =>
      rw [genesisOfJson?_of_shuffles shuffled (by simp [genesisMembers])]
      exact Json.bind_record? (by simp [genesisMembers])
        (by simp [genesisMembers, Json.float?, reads, new])

theorem genesisForm_of_zero {v : Validator} (fresh : v = .new v.address v.publicKey v.stake 0) :
    GenesisForm v (.record v.genesisMembers) := by
  have zero : v.reputation = 0 := by
    rw [fresh]
    rfl
  refine .intro ?_ (.omitted zero) ?_
  · rw [zero]
    exact fresh
  · rw [List.append_nil]
    exact .refl _ _

end Validator

namespace NodeConfig

/-! ## Fields -/

inductive Field where
  | chainId
  | blockInterval
  | batchSize
  | poolCapacity
  | tieBreak
  | noncePolicy
  | announcementCapacity
  | genesisAccounts
  | genesisValidators
deriving DecidableEq

namespace Field

def every : List Field :=
  [chainId, blockInterval, batchSize, poolCapacity, tieBreak, noncePolicy, announcementCapacity,
    genesisAccounts, genesisValidators]

theorem mem_every (x : Field) : x ∈ every := by cases x <;> decide

def name : Field → String
  | chainId => "chain_id"
  | blockInterval => "block_interval_ms"
  | batchSize => "batch_size"
  | poolCapacity => "pool_capacity"
  | tieBreak => "tie_break"
  | noncePolicy => "nonce_policy"
  | announcementCapacity => "announcement_capacity"
  | genesisAccounts => "genesis_accounts"
  | genesisValidators => "genesis_validators"

def Value : Field → Type
  | chainId => String
  | blockInterval | batchSize | poolCapacity | announcementCapacity => UInt64
  | tieBreak => TieBreak
  | noncePolicy => NoncePolicy
  | genesisAccounts => SortedMap Address Amount
  | genesisValidators => List Validator

def get : (x : Field) → NodeConfig → x.Value
  | chainId => NodeConfig.chainId
  | blockInterval => NodeConfig.blockInterval
  | batchSize => NodeConfig.batchSize
  | poolCapacity => NodeConfig.poolCapacity
  | tieBreak => NodeConfig.tieBreak
  | noncePolicy => NodeConfig.noncePolicy
  | announcementCapacity => NodeConfig.announcementCapacity
  | genesisAccounts => NodeConfig.genesisAccounts
  | genesisValidators => NodeConfig.genesisValidators

def read : (x : Field) → Json → Option x.Value
  | chainId => (Wire.ofJson? : Json → Option String)
  | blockInterval | batchSize | poolCapacity | announcementCapacity =>
      (Wire.ofJson? : Json → Option UInt64)
  | tieBreak => (Wire.ofJson? : Json → Option TieBreak)
  | noncePolicy => (Wire.ofJson? : Json → Option NoncePolicy)
  | genesisAccounts => (Wire.ofJson? : Json → Option (SortedMap Address Amount))
  | genesisValidators => Json.list? Validator.genesisOfJson?

/-- The value is a form of what the configuration has in the field. -/
def Form (c : NodeConfig) : Field → Json → Prop
  | chainId, v => v = toJson c.chainId
  | blockInterval, v => v = toJson c.blockInterval
  | batchSize, v => v = toJson c.batchSize
  | poolCapacity, v => v = toJson c.poolCapacity
  | tieBreak, v => v = toJson c.tieBreak
  | noncePolicy, v => v = toJson c.noncePolicy
  | announcementCapacity, v => v = toJson c.announcementCapacity
  | genesisAccounts, v => Wire.MapForm c.genesisAccounts v
  | genesisValidators, v =>
      ∃ items, v = .array items ∧ List.Forall₂ Validator.GenesisForm c.genesisValidators items

/-- The form in which a field is written if the validators of the genesis have no reputation. -/
def written (c : NodeConfig) : Field → Json
  | chainId => toJson c.chainId
  | blockInterval => toJson c.blockInterval
  | batchSize => toJson c.batchSize
  | poolCapacity => toJson c.poolCapacity
  | tieBreak => toJson c.tieBreak
  | noncePolicy => toJson c.noncePolicy
  | announcementCapacity => toJson c.announcementCapacity
  | genesisAccounts => toJson c.genesisAccounts
  | genesisValidators => .array (c.genesisValidators.map fun v => .record v.genesisMembers)

theorem form_written {c : NodeConfig}
    (fresh : ∀ v ∈ c.genesisValidators, v = .new v.address v.publicKey v.stake 0) (x : Field) :
    x.Form c (x.written c) := by
  cases x with
  | genesisValidators =>
      refine ⟨_, rfl, ?_⟩
      rw [List.forall₂_map_right_iff, List.forall₂_same]
      exact fun v mem => Validator.genesisForm_of_zero (fresh v mem)
  | genesisAccounts => exact .intro (.refl _)
  | _ => rfl

theorem readable_written (c : NodeConfig) (x : Field) : (x.written c).Readable := by
  cases x with
  | genesisValidators =>
      refine Json.readable_array fun j mem => ?_
      obtain ⟨v, _, rfl⟩ := List.mem_map.1 mem
      exact Json.readable_record v.readable_genesisMembers
  | chainId => exact Wire.readable_toJson c.chainId
  | blockInterval => exact Wire.readable_toJson c.blockInterval
  | batchSize => exact Wire.readable_toJson c.batchSize
  | poolCapacity => exact Wire.readable_toJson c.poolCapacity
  | tieBreak => exact Wire.readable_toJson c.tieBreak
  | noncePolicy => exact Wire.readable_toJson c.noncePolicy
  | announcementCapacity => exact Wire.readable_toJson c.announcementCapacity
  | genesisAccounts => exact Wire.readable_toJson c.genesisAccounts

theorem textual_written (c : NodeConfig) (x : Field) : (x.written c).Textual := by
  cases x with
  | genesisValidators =>
      refine Json.textual_array fun j mem => ?_
      obtain ⟨v, _, rfl⟩ := List.mem_map.1 mem
      exact Json.textual_record v.textual_genesisMembers
  | chainId => exact Json.textual_ofText c.chainId
  | tieBreak => exact Json.textual_ofText c.tieBreak.name
  | noncePolicy => exact Json.textual_ofText c.noncePolicy.name
  | genesisAccounts =>
      refine Json.textual_record fun f mem => ?_
      obtain ⟨e, _, rfl⟩ := List.mem_map.1 mem
      exact Json.textual_number _
  | _ => exact Json.textual_number _

theorem read_of_form {c : NodeConfig} {x : Field} {v : Json} (form : x.Form c v) :
    x.read v = some (x.get c) := by
  cases x with
  | chainId =>
      obtain rfl := form
      exact Wire.ofJson?_toJson c.chainId
  | blockInterval =>
      obtain rfl := form
      exact Wire.ofJson?_toJson c.blockInterval
  | batchSize =>
      obtain rfl := form
      exact Wire.ofJson?_toJson c.batchSize
  | poolCapacity =>
      obtain rfl := form
      exact Wire.ofJson?_toJson c.poolCapacity
  | tieBreak =>
      obtain rfl := form
      exact Wire.ofJson?_toJson c.tieBreak
  | noncePolicy =>
      obtain rfl := form
      exact Wire.ofJson?_toJson c.noncePolicy
  | announcementCapacity =>
      obtain rfl := form
      exact Wire.ofJson?_toJson c.announcementCapacity
  | genesisAccounts => exact Wire.MapForm.ofJson? form
  | genesisValidators =>
      obtain ⟨items, rfl, forms⟩ := form
      exact Json.mapM_of_forall₂ (forms.imp fun _ _ => Validator.GenesisForm.genesisOfJson?)

theorem name_injective {x y : Field} (h : x.name = y.name) : x = y := by
  have all : ∀ x ∈ every, ∀ y ∈ every, x.name = y.name → x = y := by decide
  exact all x x.mem_every y y.mem_every h

theorem name_mem_fieldNames (x : Field) : x.name ∈ fieldNames := by
  cases x <;> decide

end Field

/-! ## Members of a file -/

/-- The members of a file that names the fields of `F`, with the values of `c`, in any order and
among members with other names. -/
inductive Presents (c : NodeConfig) (F : List Field) (members : List (String × Json)) : Prop where
  | intro (values : Field → Json) (distinct : F.Nodup) (forms : ∀ x ∈ F, x.Form c (values x))
      (shuffled : Json.Shuffles fieldNames (F.map fun x => (x.name, values x)) members)

theorem nodup_names {F : List Field} (distinct : F.Nodup) (values : Field → Json) :
    ((F.map fun x => (x.name, values x)).map (·.1)).Nodup := by
  rw [List.map_map]
  exact distinct.map fun _ _ => Field.name_injective

theorem lookup_map_name (F : List Field) (values : Field → Json) (x : Field) :
    (⟨false, F.map fun y => (y.name, values y)⟩ : Json.Record).lookup x.name =
      if x ∈ F then some (values x) else none := by
  induction F with
  | nil => rfl
  | cons y rest ih =>
      rw [Json.Record.lookup] at ih ⊢
      rw [List.map_cons, List.find?_cons]
      by_cases same : y = x
      · obtain rfl := same
        rw [decide_eq_true rfl, if_pos List.mem_cons_self]
        rfl
      · have other : y.name ≠ x.name := fun h => same (Field.name_injective h)
        have unchanged : x ∈ y :: rest ↔ x ∈ rest := by
          rw [List.mem_cons]
          exact or_iff_right fun h => same h.symm
        rw [decide_eq_false other, ih]
        exact if_congr unchanged.symm rfl rfl

/-- Each field is read as the configuration has it, or as the standard one does. -/
theorem Presents.defaulted {c : NodeConfig} {F : List Field} {members : List (String × Json)}
    (h : c.Presents F members) (x : Field) :
    (⟨false, members⟩ : Json.Record).defaulted x.name (x.get standard) x.read =
      some (x.get (if x ∈ F then c else standard)) := by
  obtain ⟨values, distinct, forms, shuffled⟩ := h
  rw [Json.Record.defaulted, shuffled.lookup (nodup_names distinct values) x.name_mem_fieldNames,
    lookup_map_name]
  by_cases named : x ∈ F
  · rw [if_pos named, if_pos named]
    exact Field.read_of_form (forms x named)
  · rw [if_neg named, if_neg named]

/-- A configuration from what each field has. -/
def ofFields (value : (x : Field) → x.Value) : NodeConfig where
  chainId := value .chainId
  blockInterval := value .blockInterval
  batchSize := value .batchSize
  poolCapacity := value .poolCapacity
  tieBreak := value .tieBreak
  noncePolicy := value .noncePolicy
  announcementCapacity := value .announcementCapacity
  genesisAccounts := value .genesisAccounts
  genesisValidators := value .genesisValidators

@[simp] theorem get_ofFields (value : (x : Field) → x.Value) (x : Field) :
    x.get (ofFields value) = value x := by
  cases x with
  | _ => rfl

theorem Presents.ofJson?_record {c : NodeConfig} {F : List Field} {members : List (String × Json)}
    (h : c.Presents F members) :
    NodeConfig.ofJson? (Json.record members) =
      some (ofFields fun x => x.get (if x ∈ F then c else standard)) := by
  have record : Json.record? fieldNames (.record members) = some ⟨false, members⟩ := by
    obtain ⟨values, distinct, _, shuffled⟩ := h
    exact shuffled.record?_record (nodup_names distinct values)
  simp only [NodeConfig.ofJson?, Option.bind_eq_bind, Option.bind_eq_some_iff]
  exact ⟨_, record, _, h.defaulted .chainId, _, h.defaulted .blockInterval,
    _, h.defaulted .batchSize, _, h.defaulted .poolCapacity, _, h.defaulted .tieBreak,
    _, h.defaulted .noncePolicy, _, h.defaulted .announcementCapacity,
    _, h.defaulted .genesisAccounts, _, h.defaulted .genesisValidators, rfl⟩

/-! ## Validity -/

/-- What is asked of the value of a field. -/
def Field.Valid : (x : Field) → x.Value → Prop
  | chainId => fun (s : String) => s ≠ ""
  | blockInterval | batchSize | poolCapacity | announcementCapacity => fun (n : UInt64) => 0 < n
  | _ => fun _ => True

theorem requirePositive_eq_ok {field : String} {value : UInt64} :
    requirePositive field value = .ok () ↔ 0 < value := by
  unfold requirePositive
  split
  · next zero =>
    rw [zero]
    exact ⟨nofun, nofun⟩
  · next nonzero => exact ⟨fun _ => UInt64.pos_iff_ne_zero.2 nonzero, fun _ => rfl⟩

theorem validate_eq_ok {c : NodeConfig} :
    c.validate = .ok () ↔ ∀ x : Field, x.Valid (x.get c) := by
  have bind_eq_ok (r : Except ChainError Unit) (k : Unit → Except ChainError Unit) :
      (r >>= k) = .ok () ↔ r = .ok () ∧ k () = .ok () := by
    cases r with
    | ok _ => exact ⟨fun h => ⟨rfl, h⟩, fun h => h.2⟩
    | error _ => exact ⟨nofun, fun h => nomatch h.1⟩
  have checks : c.validate = .ok () ↔ c.chainId ≠ "" ∧ 0 < c.blockInterval ∧ 0 < c.batchSize ∧
      0 < c.poolCapacity ∧ 0 < c.announcementCapacity := by
    unfold validate
    split
    · next empty =>
      exact ⟨nofun, fun h => absurd empty h.1⟩
    · next named =>
      simp only [bind_eq_ok, requirePositive_eq_ok, named, ne_eq, not_false_eq_true, true_and]
  rw [checks]
  constructor
  · rintro ⟨named, interval, batch, pool, announcements⟩ x
    cases x with
    | chainId => exact named
    | blockInterval => exact interval
    | batchSize => exact batch
    | poolCapacity => exact pool
    | announcementCapacity => exact announcements
    | _ => trivial
  · intro valid
    exact ⟨valid .chainId, valid .blockInterval, valid .batchSize, valid .poolCapacity,
      valid .announcementCapacity⟩

theorem validate_standard : standard.validate = .ok () := by decide

theorem load_of_read {s : String} {d : NodeConfig} (read : decode? (Utf8.encode s) = some d)
    (valid : d.validate = .ok ()) : load (some (Utf8.encode s)) = .ok d := by
  simp only [load, Utf8.decode?_encode, read, valid]
  rfl

theorem validate_of_load {input : Option Bytes} {d : NodeConfig} (h : load input = .ok d) :
    d.validate = .ok () := by
  unfold load at h
  split at h
  · cases h
  · split at h
    · cases h
    · cases h
    · next c _ _ =>
      cases checked : c.validate with
      | error e =>
          rw [checked] at h
          cases h
      | ok _ =>
          rw [checked] at h
          obtain rfl : c = d := Except.ok.inj h
          exact checked

/-- Any members can be in a file if what they hold can be written. -/
theorem exists_file {members : List (String × Json)}
    (writable : ∀ f ∈ members, f.2.Readable ∧ f.2.Textual) :
    ∃ file, Json.parse? (Utf8.encode file) = some (.record members) := by
  have readable : (Json.record members).Readable :=
    Json.readable_record fun f mem => (writable f mem).1
  have textual : (Json.record members).Textual :=
    Json.textual_record fun f mem => (writable f mem).2
  obtain ⟨file, written⟩ := Json.isText_render readable textual
  refine ⟨file, ?_⟩
  rw [written, Json.parse?_render readable]

/-- A file that names some fields, in any order and among others, is loaded as the configuration
that has their values and that is the standard one elsewhere. There are such files for any fields
and in any order, if the validators of the genesis have no reputation. Whatever else is loaded has a
chain id and no counter that is zero. -/
theorem partial_file_overrides :
    (∀ (c : NodeConfig) (F : List Field) (members : List (String × Json)) (file : String),
      c.validate = .ok () → c.Presents F members →
      Json.parse? (Utf8.encode file) = some (.record members) →
      ∃ d, load (some (Utf8.encode file)) = .ok d ∧
        ∀ x : Field, x.get d = x.get (if x ∈ F then c else standard)) ∧
    (∀ (c : NodeConfig) (F : List Field) (others members : List (String × Json)),
      (∀ v ∈ c.genesisValidators, v = .new v.address v.publicKey v.stake 0) → F.Nodup →
      (∀ f ∈ others, f.1 ∉ fieldNames ∧ f.2.Readable ∧ f.2.Textual) →
      members.Perm (F.map (fun x => (x.name, x.written c)) ++ others) →
      c.Presents F members ∧ ∃ file, Json.parse? (Utf8.encode file) = some (.record members)) ∧
    ∀ input d, load input = .ok d → d.chainId ≠ "" ∧ 0 < d.blockInterval ∧ 0 < d.batchSize ∧
      0 < d.poolCapacity ∧ 0 < d.announcementCapacity := by
  refine ⟨fun c F members file valid presents parsed => ?_,
    fun c F others members fresh distinct unknown order => ⟨?_, ?_⟩, fun input d loaded => ?_⟩
  · refine ⟨ofFields fun x => x.get (if x ∈ F then c else standard), load_of_read ?_ ?_,
      fun x => get_ofFields _ x⟩
    · rw [decode?, parsed, Option.bind_some, presents.ofJson?_record]
    · rw [validate_eq_ok]
      intro x
      rw [get_ofFields]
      split
      · exact validate_eq_ok.1 valid x
      · exact validate_eq_ok.1 validate_standard x
  · exact .intro _ distinct (fun x _ => x.form_written fresh)
      (.intro others (fun f mem => (unknown f mem).1) order)
  · refine exists_file fun f mem => ?_
    rcases List.mem_append.1 (order.mem_iff.1 mem) with named | other
    · obtain ⟨x, _, rfl⟩ := List.mem_map.1 named
      exact ⟨x.readable_written c, x.textual_written c⟩
    · exact (unknown f other).2
  · have valid := validate_eq_ok.1 (validate_of_load loaded)
    exact ⟨valid .chainId, valid .blockInterval, valid .batchSize, valid .poolCapacity,
      valid .announcementCapacity⟩

/-- A file that names the validators before the chain, starts with a reputation of zero in the only
validator and holds an unknown member. It does not name the interval, which is the standard one. -/
theorem partial_file_overrides_two_fields :
    let v := Validator.new .zero [7] Policy.minimumStake 0
    let score : String × Json := ("reputation_score", .number ⟨false, 0, [0], none⟩)
    let members := [("genesis_validators", .array [.record (score :: v.genesisMembers)]),
      ("chain_id", toJson "test"), ("comment", .null)]
    ∃ file d, Json.parse? (Utf8.encode file) = some (.record members) ∧
      load (some (Utf8.encode file)) = .ok d ∧ d.chainId = "test" ∧ d.genesisValidators = [v] ∧
      d.blockInterval = Policy.blockTime := by
  intro v score members
  let c : NodeConfig := { standard with chainId := "test", genesisValidators := [v] }
  have zero : Json.Numeral.toFloat? ⟨false, 0, [0], none⟩ = some v.reputation := by decide +kernel
  have presents : c.Presents [.chainId, .genesisValidators] members := by
    refine .intro (fun x => if x = .chainId then toJson "test" else members.head!.2) (by decide)
      ?_ (.intro [("comment", .null)] (by decide) (.swap _ _ _))
    rw [List.forall_mem_cons, List.forall_mem_singleton]
    refine ⟨rfl, _, rfl, .cons (.intro rfl (.given zero) (.intro [] nofun ?_)) .nil⟩
    rw [List.append_nil]
    exact (List.perm_append_singleton score v.genesisMembers).symm
  have writable : ∀ f ∈ members, f.2.Readable ∧ f.2.Textual := by
    have numeral : (⟨false, 0, [0], none⟩ : Json.Numeral).Readable :=
      List.forall_mem_singleton.2 (by decide)
    have null : Json.null.Readable ∧ Json.null.Textual :=
      ⟨List.forall_mem_singleton.2 trivial, List.forall_mem_singleton.2 trivial⟩
    simp only [members, List.forall_mem_cons]
    refine ⟨⟨?_, ?_⟩, ⟨Wire.readable_toJson _, Json.textual_ofText _⟩, null, nofun⟩
    · refine Json.readable_array (List.forall_mem_singleton.2 (Json.readable_record ?_))
      exact List.forall_mem_cons.2 ⟨Json.readable_number numeral, v.readable_genesisMembers⟩
    · refine Json.textual_array (List.forall_mem_singleton.2 (Json.textual_record ?_))
      exact List.forall_mem_cons.2 ⟨Json.textual_number _, v.textual_genesisMembers⟩
  obtain ⟨file, parsed⟩ := exists_file writable
  obtain ⟨d, loaded, fields⟩ :=
    partial_file_overrides.1 c _ members file (by decide) presents parsed
  exact ⟨file, d, parsed, loaded, fields .chainId, fields .genesisValidators, fields .blockInterval⟩

end NodeConfig

end AgentLedger
