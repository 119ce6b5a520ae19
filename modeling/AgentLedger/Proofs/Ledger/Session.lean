import AgentLedger.Proofs.Ledger.Undo

namespace AgentLedger

/-!
# Sessions with checkpoints

A session asks a ledger for changes, takes checkpoints and gives each of them up at most once, by a
commit or by a revert, in any order. A checkpoint stays intact until an older one is reverted to.
Reverting to an intact checkpoint restores the contents it was taken at: the notes above its mark
lead back there, whatever has been opened and closed in between.
-/

/-- What can be asked of a ledger. A checkpoint is named by its place among those that are held,
the newest first. -/
inductive Action where
  | change (x : Change)
  | checkpoint
  | commit (place : Nat)
  | revert (place : Nat)

/-- A checkpoint that has not been given up. -/
structure Held where
  checkpoint : Checkpoint
  /-- The ledger at which it was taken. -/
  taken : Ledger
  /-- Whether no older checkpoint has been reverted to since. -/
  intact : Bool

def Held.overtaken (h : Held) : Held := { h with intact := false }

structure Session where
  ledger : Ledger
  held : List Held

namespace Session

def start (c : Contents) : Session := ⟨.ofContents c, []⟩

/-- There is no way to give up a checkpoint that is not held. -/
def step? (s : Session) : Action → Option Session
  | .change x => some ⟨x.perform s.ledger, s.held⟩
  | .checkpoint =>
      let (c, opened) := s.ledger.checkpoint
      some ⟨opened, ⟨c, s.ledger, true⟩ :: s.held⟩
  | .commit place =>
      match s.held.drop place with
      | [] => none
      | h :: older => some ⟨s.ledger.commit h.checkpoint, s.held.take place ++ older⟩
  | .revert place =>
      match s.held.drop place with
      | [] => none
      | h :: older =>
          some ⟨s.ledger.revertTo h.checkpoint, (s.held.take place).map .overtaken ++ older⟩

def run? (s : Session) : List Action → Option Session
  | [] => some s
  | a :: rest => (s.step? a).bind fun t => t.run? rest

@[simp] theorem step?_commit (l : Ledger) (newer older : List Held) (h : Held) :
    step? ⟨l, newer ++ h :: older⟩ (.commit newer.length) =
      some ⟨l.commit h.checkpoint, newer ++ older⟩ := by
  simp [step?]

@[simp] theorem step?_revert (l : Ledger) (newer older : List Held) (h : Held) :
    step? ⟨l, newer ++ h :: older⟩ (.revert newer.length) =
      some ⟨l.revertTo h.checkpoint, newer.map .overtaken ++ older⟩ := by
  simp [step?]

theorem held_of_drop {s : Session} {place : Nat} {h : Held} {older : List Held}
    (hd : s.held.drop place = h :: older) :
    (s.held.take place).length = place ∧ s.held = s.held.take place ++ h :: older := by
  have short : place < s.held.length := Nat.lt_of_not_le fun long => by
    rw [List.drop_eq_nil_of_le long] at hd
    cases hd
  refine ⟨?_, ?_⟩
  · rw [List.length_take]
    omega
  · rw [← hd, List.take_append_drop]

/-- Everything that one action can do. -/
theorem step?_cases {s t : Session} {a : Action} (h : s.step? a = some t) :
    (∃ x, a = .change x ∧ t = ⟨x.perform s.ledger, s.held⟩) ∨
    (a = .checkpoint ∧
      t = ⟨s.ledger.checkpoint.2, ⟨s.ledger.checkpoint.1, s.ledger, true⟩ :: s.held⟩) ∨
    (∃ newer k older, a = .commit newer.length ∧ s.held = newer ++ k :: older ∧
      t = ⟨s.ledger.commit k.checkpoint, newer ++ older⟩) ∨
    (∃ newer k older, a = .revert newer.length ∧ s.held = newer ++ k :: older ∧
      t = ⟨s.ledger.revertTo k.checkpoint, newer.map .overtaken ++ older⟩) := by
  cases a with
  | change x => exact .inl ⟨x, rfl, (Option.some.inj h).symm⟩
  | checkpoint => exact .inr (.inl ⟨rfl, (Option.some.inj h).symm⟩)
  | commit place =>
      simp only [step?] at h
      split at h
      · cases h
      · next k older hd =>
          obtain ⟨length, held⟩ := held_of_drop hd
          exact .inr (.inr (.inl ⟨_, k, older, by rw [length], held, (Option.some.inj h).symm⟩))
  | revert place =>
      simp only [step?] at h
      split at h
      · cases h
      · next k older hd =>
          obtain ⟨length, held⟩ := held_of_drop hd
          exact .inr (.inr (.inr ⟨_, k, older, by rw [length], held, (Option.some.inj h).symm⟩))

/-! ## What every session keeps -/

/-- The invariant of a session in which `base` more checkpoints are open that others hold. An
intact checkpoint is one to which the notes lead back; its mark is not above that of any newer
one, so undoing down to a newer mark leaves the way to it. -/
structure Sound (base : Nat) (s : Session) : Prop where
  depth_eq : s.ledger.depth = base + s.held.length
  tidy : s.ledger.Tidy
  marked : ∀ h ∈ s.held, h.checkpoint.mark = h.taken.notes.length
  goesBack : ∀ h ∈ s.held, h.intact = true → s.ledger.GoesBackTo h.taken
  ordered : s.held.Pairwise fun newer older =>
    older.intact = true → older.checkpoint.mark ≤ newer.checkpoint.mark

theorem sound_start (c : Contents) : (start c).Sound 0 where
  depth_eq := rfl
  tidy _ := rfl
  marked := by simp [start]
  goesBack := by simp [start]
  ordered := .nil

namespace Sound

variable {base : Nat} {l : Ledger} {held newer older : List Held} {h : Held}

theorem depth_pos {s : Session} (sound : s.Sound base) (mem : h ∈ s.held) :
    0 < s.ledger.depth := by
  have depth := sound.depth_eq
  have nonempty : 0 < s.held.length := List.length_pos_of_mem mem
  omega

theorem change (s : Sound base ⟨l, held⟩) (x : Change) : Sound base ⟨x.perform l, held⟩ where
  depth_eq := (x.depth_perform l).trans s.depth_eq
  tidy := x.tidy_perform s.tidy
  marked := s.marked
  goesBack := by
    intro h mem intact
    have opened : 0 < l.depth := s.depth_pos mem
    exact (x.perform_goesBackTo opened).trans (s.goesBack h mem intact)
  ordered := s.ordered

theorem checkpoint (s : Sound base ⟨l, held⟩) :
    Sound base ⟨l.checkpoint.2, ⟨l.checkpoint.1, l, true⟩ :: held⟩ where
  depth_eq := congrArg (· + 1) s.depth_eq
  tidy := nofun
  marked := by
    intro h mem
    rcases List.mem_cons.1 mem with rfl | mem
    · rfl
    · exact s.marked h mem
  goesBack := by
    intro h mem intact
    rcases List.mem_cons.1 mem with rfl | mem
    · exact .of_eq (.refl l) rfl rfl
    · exact .of_eq (s.goesBack h mem intact) rfl rfl
  ordered := by
    refine List.pairwise_cons.2 ⟨?_, s.ordered⟩
    intro h mem intact
    rw [s.marked h mem]
    exact (s.goesBack h mem intact).length_le

/-- Closing a checkpoint empties the notes only if no other is left to need them. -/
theorem close (depth : l.depth = base + (held.length + 1))
    (marked : ∀ h ∈ held, h.checkpoint.mark = h.taken.notes.length)
    (goesBack : ∀ h ∈ held, h.intact = true → l.GoesBackTo h.taken)
    (ordered : held.Pairwise fun newer older =>
      older.intact = true → older.checkpoint.mark ≤ newer.checkpoint.mark) :
    Sound base ⟨l.close, held⟩ where
  depth_eq := by
    change l.close.depth = base + held.length
    rw [Ledger.depth_close]
    omega
  tidy := l.tidy_close
  marked := marked
  goesBack := by
    intro h mem intact
    have needed : 1 < l.depth := by
      have nonempty : 0 < held.length := List.length_pos_of_mem mem
      omega
    change l.close.GoesBackTo h.taken
    rw [Ledger.close_of_one_lt needed]
    exact .of_eq (goesBack h mem intact) rfl rfl
  ordered := ordered

theorem commit (s : Sound base ⟨l, newer ++ h :: older⟩) :
    Sound base ⟨l.commit h.checkpoint, newer ++ older⟩ := by
  have rest : (newer ++ older).Sublist (newer ++ h :: older) :=
    List.Sublist.append_left (List.sublist_cons_self h older) newer
  refine close ?_ ?_ ?_ (s.ordered.sublist rest)
  · have depth : l.depth = base + (newer ++ h :: older).length := s.depth_eq
    simp only [List.length_append, List.length_cons] at depth ⊢
    omega
  · exact fun k mem => s.marked k (rest.subset mem)
  · exact fun k mem => s.goesBack k (rest.subset mem)

theorem revert (s : Sound base ⟨l, newer ++ h :: older⟩) :
    Sound base ⟨l.revertTo h.checkpoint, newer.map .overtaken ++ older⟩ := by
  obtain ⟨_, later, across⟩ := List.pairwise_append.1 s.ordered
  obtain ⟨above, ordered⟩ := List.pairwise_cons.1 later
  rw [Ledger.revertTo_eq]
  refine close ?_ ?_ ?_ ?_
  · have depth : l.depth = base + (newer ++ h :: older).length := s.depth_eq
    simp only [List.length_append, List.length_cons, List.length_map] at depth ⊢
    exact depth
  · intro k mem
    rcases List.mem_append.1 mem with mem | mem
    · obtain ⟨j, memj, rfl⟩ := List.mem_map.1 mem
      exact s.marked j (List.mem_append_left _ memj)
    · exact s.marked k (List.mem_append_right _ (List.mem_cons_of_mem h mem))
  · intro k mem intact
    rcases List.mem_append.1 mem with mem | mem
    · obtain ⟨j, _, rfl⟩ := List.mem_map.1 mem
      cases intact
    · have kept : k ∈ newer ++ h :: older :=
        List.mem_append_right _ (List.mem_cons_of_mem h mem)
      refine (s.goesBack k kept intact).rewind_of_le ?_
      rw [← s.marked k kept]
      exact above k mem intact
  · refine List.pairwise_append.2 ⟨?_, ordered, ?_⟩
    · exact List.pairwise_map.2 (List.pairwise_of_forall fun _ _ intact => nomatch intact)
    · intro j memj k memk
      obtain ⟨i, memi, rfl⟩ := List.mem_map.1 memj
      exact across i memi k (List.mem_cons_of_mem h memk)

theorem step {s t : Session} {a : Action} (sound : s.Sound base) (ha : s.step? a = some t) :
    t.Sound base := by
  obtain ⟨l, held⟩ := s
  rcases step?_cases ha with ⟨x, _, rfl⟩ | ⟨_, rfl⟩ | ⟨newer, h, older, _, rfl, rfl⟩ |
    ⟨newer, h, older, _, rfl, rfl⟩
  · exact sound.change x
  · exact sound.checkpoint
  · exact sound.commit
  · exact sound.revert

theorem run {s t : Session} {actions : List Action} (sound : s.Sound base)
    (h : s.run? actions = some t) : t.Sound base := by
  induction actions generalizing s with
  | nil =>
      cases h
      exact sound
  | cons a rest ih =>
      obtain ⟨u, first, last⟩ := Option.bind_eq_some_iff.1 h
      exact ih (sound.step first) last

end Sound

/-! ## Copy and restore -/

/-- A ledger with checkpoints does what contents without notes do, and an intact checkpoint serves
as a copy of the contents. -/
theorem checkpoints_copy_and_restore (c : Contents) (actions : List Action) (s : Session)
    (h : (start c).run? actions = some s) :
    (∀ x : Change, (x.onLedger s.ledger).map Ledger.contents = x.onContents s.ledger.contents) ∧
    s.ledger.checkpoint.2.contents = s.ledger.contents ∧
    (∀ k ∈ s.held, (s.ledger.commit k.checkpoint).contents = s.ledger.contents) ∧
    (∀ k ∈ s.held, k.intact = true →
      (s.ledger.revertTo k.checkpoint).contents = k.taken.contents ∧
        k.checkpoint.mark ≤ s.ledger.notes.length) ∧
    s.ledger.depth = s.held.length ∧ (s.ledger.depth = 0 → s.ledger.notes = []) := by
  have sound : s.Sound 0 := (sound_start c).run h
  refine ⟨fun x => x.map_contents_onLedger s.ledger, rfl, fun k _ => s.ledger.contents_close, ?_,
    ?_, sound.tidy⟩
  · intro k mem intact
    have way := sound.goesBack k mem intact
    have mark := sound.marked k mem
    exact ⟨way.contents_revertTo mark, mark ▸ way.length_le⟩
  · have depth := sound.depth_eq
    omega

/-- A checkpoint taken inside another one outlives it and still restores. -/
theorem inner_checkpoint_restores :
    ∃ s k, (start .empty).run? [.checkpoint, .change (.setBalance .zero 1), .checkpoint,
        .change (.incrementNonce .zero), .commit 1] = some s ∧ s.held = [k] ∧ k.intact = true ∧
      k.taken.contents = Contents.empty.setBalance .zero 1 ∧
      (s.ledger.revertTo k.checkpoint).contents = k.taken.contents := by
  have ran : (start .empty).run? [.checkpoint, .change (.setBalance .zero 1), .checkpoint,
      .change (.incrementNonce .zero), .commit 1] = some ⟨_, [_]⟩ := rfl
  obtain ⟨_, _, _, restores, _⟩ := checkpoints_copy_and_restore _ _ _ ran
  exact ⟨_, _, ran, rfl, rfl, rfl, (restores _ (List.mem_singleton_self _) rfl).1⟩

end Session

end AgentLedger
