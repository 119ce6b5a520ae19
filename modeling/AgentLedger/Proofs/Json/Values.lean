import AgentLedger.Json.Value
import AgentLedger.Proofs.Json.Lexing

namespace AgentLedger.Json

/-!
# Values are read back

The tokens of a value take the builder from where a value may start to where it is complete, and
numbers are never neighbours among them. A written value is therefore read back, if the numerals in
it are in order.
-/

/-- What holds of containers if it holds of what is in them holds of all values. -/
@[elab_as_elim]
theorem container_induction {P : Json → Prop} (null : P .null) (bool : ∀ b, P (.bool b))
    (number : ∀ n, P (.number n)) (text : ∀ bs, P (.text bs))
    (array : ∀ items, (∀ v ∈ items, P v) → P (.array items))
    (object : ∀ members, (∀ m ∈ members, P m.2) → P (.object members)) (v : Json) : P v := by
  refine @Json.rec P (fun items => ∀ v ∈ items, P v) (fun members => ∀ m ∈ members, P m.2)
    (fun m => P m.2) null bool number text array object nofun ?_ nofun ?_ (fun _ _ h => h) v
  · intro v rest hv hrest
    exact List.forall_mem_cons.2 ⟨hv, hrest⟩
  · intro m rest hm hrest
    exact List.forall_mem_cons.2 ⟨hm, hrest⟩

namespace Builder

def run (b : Builder) (ts : List Token) : Option Builder := ts.foldlM step b

@[simp] theorem run_nil (b : Builder) : b.run [] = some b := rfl

@[simp] theorem run_cons (b : Builder) (t : Token) (ts : List Token) :
    b.run (t :: ts) = (b.step t).bind fun c => c.run ts := rfl

@[simp] theorem run_append (b : Builder) (ts us : List Token) :
    b.run (ts ++ us) = (b.run ts).bind fun c => c.run us := List.foldlM_append

/-- A value starts with a token that does not close an array. -/
theorem tokens_eq_cons (v : Json) : ∃ t ts, v.tokens = t :: ts ∧ t ≠ .closeArray := by
  cases v with
  | _ => exact ⟨_, _, rfl, nofun⟩

/-- Where an item may follow the opening bracket, it is read like any value. -/
theorem step_firstItem {frames : List Frame} {t : Token} (h : t ≠ .closeArray) :
    step ⟨.firstItem, frames⟩ t = step ⟨.value, frames⟩ t := by
  cases frames with
  | nil => rfl
  | cons f rest =>
      cases f with
      | array items =>
          cases t with
          | closeArray => exact absurd rfl h
          | _ => rfl
      | object members k => rfl

theorem run_firstItem {frames : List Frame} (v : Json) (rest : List Json) (us : List Token) :
    run ⟨.firstItem, frames⟩ (itemTokens (v :: rest) ++ us) =
      run ⟨.value, frames⟩ (itemTokens (v :: rest) ++ us) := by
  obtain ⟨t, ts, start, other⟩ := tokens_eq_cons v
  have first : ∃ more, itemTokens (v :: rest) = t :: more := by
    cases rest with
    | nil => exact ⟨ts, start⟩
    | cons w rest =>
        rw [itemTokens, start]
        exact ⟨_, rfl⟩
  obtain ⟨more, items⟩ := first
  rw [items, List.cons_append, run_cons, run_cons, step_firstItem other]

/-- The value is built wherever a value may start. -/
def Builds (v : Json) : Prop :=
  ∀ frames, run ⟨.value, frames⟩ v.tokens = some ⟨.complete v, frames⟩

theorem run_itemTokens {items : List Json} (each : ∀ v ∈ items, Builds v) (more : items ≠ [])
    (acc : List Json) (frames : List Frame) :
    run ⟨.value, .array acc :: frames⟩ (itemTokens items ++ [.closeArray]) =
      some ⟨.complete (.array (acc.reverse ++ items)), frames⟩ := by
  induction items generalizing acc with
  | nil => exact absurd rfl more
  | cons v rest ih =>
      rw [List.forall_mem_cons] at each
      have value := each.1 (.array acc :: frames)
      cases rest with
      | nil => simp [itemTokens, value, step]
      | cons w rest =>
          have later := ih each.2 (List.cons_ne_nil w rest) (v :: acc)
          have comma : step ⟨.complete v, .array acc :: frames⟩ .comma =
              some ⟨.value, .array (v :: acc) :: frames⟩ := rfl
          simp only [itemTokens, List.append_assoc, List.cons_append]
          rw [run_append, value, Option.bind_some, run_cons, comma, Option.bind_some, later]
          simp

theorem run_memberTokens {members : List (Bytes × Json)} (each : ∀ m ∈ members, Builds m.2)
    (more : members ≠ []) (acc : List (Bytes × Json)) (mayClose : Bool) (frames : List Frame) :
    run ⟨.key acc mayClose, frames⟩ (memberTokens members ++ [.closeObject]) =
      some ⟨.complete (.object (acc.reverse ++ members)), frames⟩ := by
  induction members generalizing acc mayClose with
  | nil => exact absurd rfl more
  | cons m rest ih =>
      obtain ⟨k, v⟩ := m
      rw [List.forall_mem_cons] at each
      have value := each.1 (.object acc k :: frames)
      have key : step ⟨.key acc mayClose, frames⟩ (.text k) = some ⟨.colon acc k, frames⟩ := rfl
      have colon : step ⟨.colon acc k, frames⟩ .colon =
          some ⟨.value, .object acc k :: frames⟩ := rfl
      cases rest with
      | nil => simp [memberTokens, value, step]
      | cons m rest =>
          have later := ih each.2 (List.cons_ne_nil m rest) ((k, v) :: acc) false
          have comma : step ⟨.complete v, .object acc k :: frames⟩ .comma =
              some ⟨.key ((k, v) :: acc) false, frames⟩ := rfl
          simp only [memberTokens, List.append_assoc, List.cons_append]
          rw [run_cons, key, Option.bind_some, run_cons, colon, Option.bind_some, run_append, value,
            Option.bind_some, run_cons, comma, Option.bind_some, later]
          simp

theorem builds (v : Json) : Builds v := by
  induction v using container_induction with
  | null => exact fun _ => rfl
  | bool b => exact fun _ => rfl
  | number n => exact fun _ => rfl
  | text bs => exact fun _ => rfl
  | array items each =>
      intro frames
      cases items with
      | nil => rfl
      | cons v rest =>
          have opened : step ⟨.value, frames⟩ .openArray =
              some ⟨.firstItem, .array [] :: frames⟩ := rfl
          rw [tokens, List.cons_append, run_cons, opened, Option.bind_some, run_firstItem]
          exact run_itemTokens each (List.cons_ne_nil v rest) [] frames
  | object members each =>
      intro frames
      cases members with
      | nil => rfl
      | cons m rest =>
          have opened : step ⟨.value, frames⟩ .openObject = some ⟨.key [] true, frames⟩ := rfl
          rw [tokens, List.cons_append, run_cons, opened, Option.bind_some]
          exact run_memberTokens each (List.cons_ne_nil m rest) [] true frames

end Builder

theorem ofTokens?_tokens (v : Json) : ofTokens? v.tokens = some v := by
  change (Builder.run .initial v.tokens).bind Builder.finish = some v
  rw [Builder.initial, Builder.builds v]
  rfl

/-! ## Neighbours -/

theorem isChain_cons {ts : List Token} {c : Token} (delimits : c.isNumber = false)
    (chain : ts.IsChain Token.Apart) : (c :: ts).IsChain Token.Apart := by
  refine List.isChain_cons.2 ⟨fun t _ number => ?_, chain⟩
  rw [delimits] at number
  cases number

theorem isChain_append_cons {ts us : List Token} {c : Token} (delimits : c.isNumber = false)
    (left : ts.IsChain Token.Apart) (right : us.IsChain Token.Apart) :
    (ts ++ c :: us).IsChain Token.Apart := by
  refine List.isChain_append.2 ⟨left, isChain_cons delimits right, ?_⟩
  rintro t _ u ⟨⟩ _ number
  rw [delimits] at number
  cases number

theorem isChain_itemTokens {items : List Json}
    (each : ∀ v ∈ items, v.tokens.IsChain Token.Apart) :
    (itemTokens items).IsChain Token.Apart := by
  induction items with
  | nil => exact .nil
  | cons v rest ih =>
      rw [List.forall_mem_cons] at each
      cases rest with
      | nil => exact each.1
      | cons w rest => exact isChain_append_cons rfl each.1 (ih each.2)

theorem isChain_memberTokens {members : List (Bytes × Json)}
    (each : ∀ m ∈ members, m.2.tokens.IsChain Token.Apart) :
    (memberTokens members).IsChain Token.Apart := by
  induction members with
  | nil => exact .nil
  | cons m rest ih =>
      rw [List.forall_mem_cons] at each
      have named := isChain_cons (c := .text m.1) rfl (isChain_cons (c := .colon) rfl each.1)
      cases rest with
      | nil => exact named
      | cons w rest => exact isChain_append_cons rfl named (ih each.2)

theorem isChain_tokens (v : Json) : v.tokens.IsChain Token.Apart := by
  induction v using container_induction with
  | null => exact .singleton _
  | bool b => exact .singleton _
  | number n => exact .singleton _
  | text bs => exact .singleton _
  | array items each =>
      exact isChain_cons rfl (isChain_append_cons rfl (isChain_itemTokens each) .nil)
  | object members each =>
      exact isChain_cons rfl (isChain_append_cons rfl (isChain_memberTokens each) .nil)

/-! ## Tokens of containers -/

section

variable {P : Token → Prop}

/-- What holds of the delimiters and of the tokens of the items holds of the tokens of an array. -/
theorem forall_mem_tokens_array (opening : P .openArray) (comma : P .comma)
    (closing : P .closeArray) {items : List Json} (each : ∀ v ∈ items, ∀ t ∈ v.tokens, P t) :
    ∀ t ∈ (array items).tokens, P t := by
  have inside : ∀ t ∈ itemTokens items, P t := by
    induction items with
    | nil => nofun
    | cons v rest ih =>
        rw [List.forall_mem_cons] at each
        cases rest with
        | nil => exact each.1
        | cons w rest =>
            exact List.forall_mem_append.2 ⟨each.1, List.forall_mem_cons.2 ⟨comma, ih each.2⟩⟩
  exact List.forall_mem_cons.2 ⟨opening, List.forall_mem_append.2
    ⟨inside, List.forall_mem_singleton.2 closing⟩⟩

theorem forall_mem_tokens_object (opening : P .openObject) (colon : P .colon) (comma : P .comma)
    (closing : P .closeObject) {members : List (Bytes × Json)}
    (keys : ∀ m ∈ members, P (.text m.1)) (each : ∀ m ∈ members, ∀ t ∈ m.2.tokens, P t) :
    ∀ t ∈ (object members).tokens, P t := by
  have inside : ∀ t ∈ memberTokens members, P t := by
    induction members with
    | nil => nofun
    | cons m rest ih =>
        rw [List.forall_mem_cons] at keys each
        have named : ∀ t ∈ .text m.1 :: .colon :: m.2.tokens, P t :=
          List.forall_mem_cons.2 ⟨keys.1, List.forall_mem_cons.2 ⟨colon, each.1⟩⟩
        cases rest with
        | nil => exact named
        | cons w rest =>
            exact List.forall_mem_append.2
              ⟨named, List.forall_mem_cons.2 ⟨comma, ih keys.2 each.2⟩⟩
  exact List.forall_mem_cons.2 ⟨opening, List.forall_mem_append.2
    ⟨inside, List.forall_mem_singleton.2 closing⟩⟩

end

/-! ## Texts -/

/-- The numerals in the value are in order. -/
def Readable (v : Json) : Prop := ∀ t ∈ v.tokens, t.Readable

theorem parse?_render {v : Json} (readable : v.Readable) : parse? v.render = some v := by
  unfold parse? render
  rw [lex_flatMap_spell readable (isChain_tokens v), Option.bind_some, ofTokens?_tokens]

theorem render_inj {v w : Json} (hv : v.Readable) (hw : w.Readable) (h : v.render = w.render) :
    v = w := by
  have read := congrArg parse? h
  rw [parse?_render hv, parse?_render hw] at read
  exact Option.some.inj read

theorem readable_text (bs : Bytes) : (text bs).Readable :=
  List.forall_mem_singleton.2 trivial

theorem readable_bool (b : Bool) : (bool b).Readable := List.forall_mem_singleton.2 trivial

theorem readable_number {n : Numeral} (h : n.Readable) : (number n).Readable :=
  List.forall_mem_singleton.2 h

theorem readable_array {items : List Json} (each : ∀ v ∈ items, v.Readable) :
    (array items).Readable := forall_mem_tokens_array trivial trivial trivial each

theorem readable_object {members : List (Bytes × Json)} (each : ∀ m ∈ members, m.2.Readable) :
    (object members).Readable :=
  forall_mem_tokens_object trivial trivial trivial trivial (fun _ _ => trivial) each

end AgentLedger.Json
