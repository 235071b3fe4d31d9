import MarketAggregator.ChannelSteps
import Mathlib.Data.List.Perm.Basic

/-!
# When a receive that returns nothing is the last word

The closed flag is read outside the lock. A sender that read it before the channel was
closed still pushes, however long ago the receiver saw the flag and found the queue
empty. Otherwise every item that a sender reported as queued has been received or
counted as dropped when a receive returns nothing.
-/

namespace FinalReceives

open ChannelSteps GuardedRuns

universe u

variable {T : Type u}

/-- The sender has evicted an item and not counted it yet. -/
def evicting : SenderPc T → Bool
  | .pushed (some _) => true
  | .counting (some _) => true
  | _ => false

/-- Every accepted item is received, queued or evicted, and every eviction is counted or is
about to be. -/
structure Conserved (s : Shared T) : Prop where
  partitioned : s.accepted.Perm (s.received ++ s.queue ++ s.evicted)
  counted : s.count + s.senders.countP evicting = s.evicted.length

/-- Nothing is queued, and every accepted item is received or dropped. -/
structure Drained (s : Shared T) : Prop where
  empty : s.queue = []
  partitioned : s.accepted.Perm (s.received ++ s.evicted)
  counted : s.count + s.senders.countP evicting = s.evicted.length

/-- Once a receive has returned nothing, nothing is queued, now or after any further steps. -/
def NoneIsFinal (s : Shared T) : Prop :=
  s.ended = true → ∀ more, Drained (exec Shared.step s more)

/-- The receiver's last look finds an empty queue only when no sender is about to push. -/
def LastLookQuiet (s : Shared T) (a : Act T) : Prop :=
  match a with
  | .receiver => s.receiver = .lastPop → s.queue = [] → ∀ item, .pushing item ∉ s.senders
  | _ => True

section Items

variable {s t : Shared T} {i : Nat} {pc : SenderPc T} {a : Act T}

theorem conserved_push (h : Conserved s) {item : T} (at_i : s.senders[i]? = some (.pushing item)) :
    Conserved (s.push i item) := by
  classical
  have moved : ∀ evicted : Option T, (s.senders.set i (.pushed evicted)).countP evicting =
      s.senders.countP evicting + evicted.toList.length := by
    intro evicted
    have count := countP_moved (.pushed evicted) evicting at_i
    cases evicted <;> simpa [evicting] using count
  have counted := h.counted
  have perm := fun x => h.partitioned.count_eq x
  by_cases full : s.capacity ≤ s.queue.length
  · cases queue : s.queue with
    | nil =>
      have positive := s.positive
      rw [queue, List.length_nil] at full
      omega
    | cons old rest =>
      rw [queue] at perm full
      constructor
      · refine List.perm_iff_count.mpr fun x => ?_
        have before := perm x
        simp only [Shared.push, queue, full, if_true, List.tail_cons, List.head?_cons,
          Option.toList_some, List.count_append, List.count_cons, List.count_nil] at before ⊢
        omega
      · simp only [Shared.push, queue, full, if_true, List.head?_cons, Option.toList_some, moved,
          List.length_append, List.length_singleton]
        omega
  · constructor
    · refine List.perm_iff_count.mpr fun x => ?_
      have before := perm x
      simp only [Shared.push, full, if_false, Option.toList_none, List.append_nil,
        List.count_append] at before ⊢
      omega
    · simp only [Shared.push, full, if_false, Option.toList_none, List.append_nil, moved,
        List.length_nil]
      omega

theorem evicting_woken (pc : SenderPc T) : evicting pc.woken = evicting pc := by
  cases pc <;> rfl

theorem count_take (empty : ReceiverPc T) : (s.take empty).count = s.count := by
  rcases s.take_cases empty with ⟨-, h⟩ | ⟨item, rest, -, h⟩ <;> rw [h]

theorem count_sender (other : ∀ evicted, pc ≠ .counting evicted) :
    (s.senderStep i pc).count = s.count := by
  cases pc with
  | counting evicted => exact False.elim (other evicted rfl)
  | pushed evicted =>
    rcases s.notifyOne_cases with ⟨-, h⟩ | ⟨-, h⟩ <;> rw [Shared.senderStep, h] <;> rfl
  | waiting item woken => cases woken <;> rfl
  | _ => rfl

theorem count_step (s : Shared T) (a : Act T)
    (other : ∀ i evicted, a = .sender i → s.senders[i]? ≠ some (.counting evicted)) :
    (s.step a).count = s.count := by
  cases a with
  | call i op =>
    rw [Shared.step]
    split
    · cases op <;> rfl
    · rfl
  | sender i =>
    rw [Shared.step]
    split
    · rename_i pc at_i
      refine count_sender ?_
      rintro evicted rfl
      exact other i evicted rfl at_i
    · rfl
  | recv =>
    rw [Shared.step]
    split <;> rfl
  | receiver =>
    rw [Shared.step]
    cases s.receiver with
    | popping => exact count_take _
    | repopping woken => exact count_take _
    | lastPop => exact count_take _
    | awaiting woken =>
      rw [Shared.receiverStep]
      split <;> rfl
    | parked woken => cases woken <;> rfl
    | _ => rfl
  | tryRecv =>
    rw [Shared.step]
    split <;> rfl
  | tryNotify =>
    rw [Shared.step]
    split <;> rfl

theorem countP_woken : (s.senders.map SenderPc.woken).countP evicting =
    s.senders.countP evicting := by
  rw [List.countP_map]
  exact List.countP_congr fun pc _ => by rw [Function.comp, evicting_woken]

/-- What is evicted and not counted changes with the count, except by a push. -/
theorem owed_step (s : Shared T) (a : Act T)
    (other : ∀ i item, a = .sender i → s.senders[i]? ≠ some (.pushing item)) :
    (s.step a).count + (s.step a).senders.countP evicting =
      s.count + s.senders.countP evicting := by
  by_cases counting : ∃ i evicted, a = .sender i ∧ s.senders[i]? = some (.counting evicted)
  · obtain ⟨i, evicted, rfl, at_i⟩ := counting
    have moved := countP_moved .idle evicting at_i
    simp only [Shared.step, at_i, Shared.senderStep, Shared.goto]
    cases evicted with
    | none =>
      simp only [evicting] at moved
      simpa using moved
    | some old =>
      simp only [evicting, if_true] at moved
      simp only [Option.toList_some, List.length_singleton]
      simp at moved
      omega
  · have count := count_step s a fun i evicted same at_i => counting ⟨i, evicted, same, at_i⟩
    rw [count, Nat.add_left_cancel_iff]
    cases s.senders_step a with
    | same senders => rw [senders]
    | moved i old new at_i edge act senders =>
      have moved := countP_moved new evicting at_i
      have alike : evicting old = evicting new := by
        cases edge with
        | push item evicted =>
          rcases act with idle | sender
          · exact False.elim (by cases idle)
          · exact False.elim (other i item sender at_i)
        | count evicted =>
          rcases act with idle | sender
          · exact False.elim (by cases idle)
          · exact False.elim (counting ⟨i, evicted, sender, at_i⟩)
        | notify evicted => cases evicted <;> rfl
        | _ => rfl
      rw [alike] at moved
      rw [senders]
      omega
    | cloned i holder senders => rw [senders, List.countP_append]; rfl
    | woken senders => rw [senders, countP_woken]

theorem conserved_step (h : Conserved s) (a : Act T) : Conserved (s.step a) := by
  classical
  by_cases pushing : ∃ i item, a = .sender i ∧ s.senders[i]? = some (.pushing item)
  · obtain ⟨i, item, rfl, at_i⟩ := pushing
    simp only [Shared.step, at_i]
    exact conserved_push h at_i
  · have owed := owed_step s a fun i item same at_i => pushing ⟨i, item, same, at_i⟩
    have counted := h.counted
    have perm := fun x => h.partitioned.count_eq x
    rcases s.items_step a with same | taken | ⟨i, item, sender, at_i, -⟩
    · constructor
      · rw [same.accepted, same.received, same.queue, same.evicted]
        exact h.partitioned
      · rw [same.evicted]
        omega
    · obtain ⟨item, queue, received⟩ := taken.taken
      constructor
      · refine List.perm_iff_count.mpr fun x => ?_
        have before := perm x
        rw [taken.accepted, taken.evicted, received]
        simp only [queue, List.count_append, List.count_cons, List.count_nil] at before ⊢
        omega
      · rw [taken.evicted]
        omega
    · exact False.elim (pushing ⟨i, item, sender, at_i⟩)

/-- No step opens a channel. -/
theorem closed_step (closed : s.closed = true) (a : Act T) : (s.step a).closed = true := by
  cases a with
  | call i op =>
    rw [Shared.step]
    split
    · cases op with
      | close => rfl
      | _ => exact closed
    · exact closed
  | sender i =>
    rw [Shared.step]
    split
    · rename_i pc at_i
      by_cases dropping : pc = .dropping
      · rw [dropping]
        rfl
      · exact (Shared.closed_sender dropping).trans closed
    · exact closed
  | receiver => exact Shared.closed_receiver.trans closed
  | recv =>
    rw [Shared.step]
    split <;> exact closed
  | tryRecv =>
    rw [Shared.step]
    split <;> exact closed
  | tryNotify =>
    rw [Shared.step]
    split <;> exact closed

theorem looking_step (kept : s.receiver = .lastPop → s.closed = true)
    (looks : (s.step a).receiver = .lastPop) : (s.step a).closed = true := by
  by_cases own : a = .receiver
  · subst own
    refine closed_step ?_ .receiver
    rw [Shared.step] at looks
    cases receiver : s.receiver with
    | loading =>
      rw [receiver] at looks
      by_contra opened
      simp [Shared.receiverStep, opened] at looks
    | reloading woken =>
      rw [receiver] at looks
      by_contra opened
      simp [Shared.receiverStep, opened] at looks
    | lastPop => exact kept receiver
    | popping =>
      rw [receiver, Shared.receiverStep] at looks
      rcases s.take_cases .loading with ⟨-, h⟩ | ⟨item, rest, -, h⟩ <;> simp [h] at looks
    | repopping woken =>
      rw [receiver, Shared.receiverStep] at looks
      rcases s.take_cases (.reloading woken) with ⟨-, h⟩ | ⟨item, rest, -, h⟩ <;> simp [h] at looks
    | awaiting woken =>
      rw [receiver, Shared.receiverStep] at looks
      cases woken <;> split at looks <;> cases looks
    | parked woken =>
      rw [receiver] at looks
      cases woken
      · exact kept looks
      · cases looks
    | idle =>
      rw [receiver, Shared.receiverStep, receiver] at looks
      cases looks
    | subscribing => rw [receiver] at looks; cases looks
    | popped item => rw [receiver] at looks; cases looks
  · cases s.receiver_step own with
    | same receiver => exact closed_step (kept (receiver.symm.trans looks)) a
    | woken receiver =>
      refine closed_step (kept ?_) a
      rw [looks] at receiver
      cases at_receiver : s.receiver <;> rw [at_receiver] at receiver <;> first | rfl | cases receiver
    | called idle receiver =>
      rw [receiver] at looks
      cases looks

theorem ended_take (empty : ReceiverPc T) : (s.take empty).ended = s.ended := by
  rcases s.take_cases empty with ⟨-, h⟩ | ⟨item, rest, -, h⟩ <;> rw [h]

theorem ended_receiver {rc : ReceiverPc T} (looking : rc ≠ .lastPop) :
    (s.receiverStep rc).ended = s.ended := by
  cases rc with
  | lastPop => exact False.elim (looking rfl)
  | popping => exact ended_take _
  | repopping woken => exact ended_take _
  | awaiting woken =>
    rw [Shared.receiverStep]
    split <;> rfl
  | parked woken => cases woken <;> rfl
  | _ => rfl

theorem ended_sender : (s.senderStep i pc).ended = s.ended := by
  cases pc with
  | pushed evicted =>
    rcases s.notifyOne_cases with ⟨-, h⟩ | ⟨-, h⟩ <;> rw [Shared.senderStep, h] <;> rfl
  | waiting item woken => cases woken <;> rfl
  | _ => rfl

/-- Only the last look ends the receives, at an empty queue. -/
theorem ended_step (ended : (s.step a).ended = true) :
    s.ended = true ∨ a = .receiver ∧ s.receiver = .lastPop ∧ s.queue = [] := by
  cases a with
  | receiver =>
    by_cases looking : s.receiver = .lastPop
    · simp only [Shared.step, looking, Shared.receiverStep, Bool.or_eq_true,
        List.isEmpty_iff] at ended
      exact ended.imp id fun empty => ⟨rfl, looking, empty⟩
    · exact .inl ((ended_receiver looking).symm.trans ended)
  | call i op =>
    rw [Shared.step] at ended
    split at ended
    · cases op <;> exact .inl ended
    · exact .inl ended
  | sender i =>
    rw [Shared.step] at ended
    split at ended
    · exact .inl (ended_sender.symm.trans ended)
    · exact .inl ended
  | recv =>
    rw [Shared.step] at ended
    split at ended <;> exact .inl ended
  | tryRecv =>
    rw [Shared.step] at ended
    split at ended <;> exact .inl ended
  | tryNotify =>
    rw [Shared.step] at ended
    split at ended <;> exact .inl ended

/-- A sender that is about to push stood there, or has just seen an open channel. -/
theorem pushing_step {item : T} (mem : .pushing item ∈ (s.step a).senders) :
    .pushing item ∈ s.senders ∨ s.closed = false := by
  cases s.senders_step a with
  | same senders => exact .inl (senders ▸ mem)
  | moved i old new at_i edge act senders =>
    rw [senders] at mem
    rcases List.mem_or_eq_of_mem_set mem with before | rfl
    · exact .inl before
    · cases edge with
      | enter item opened => exact .inr opened
  | cloned i holder senders =>
    rw [senders] at mem
    exact .inl (by simpa using mem)
  | woken senders =>
    rw [senders] at mem
    obtain ⟨pc, before, woken⟩ := List.mem_map.mp mem
    cases pc <;> cases woken
    exact .inl before

/-- Nothing can enter the queue any more. -/
structure Final (s : Shared T) : Prop where
  conserved : Conserved s
  closed : s.closed = true
  empty : s.queue = []
  quiet : ∀ item, .pushing item ∉ s.senders

theorem Final.kept (h : Final s) (a : Act T) : Final (s.step a) := by
  constructor
  · exact conserved_step h.conserved a
  · exact closed_step h.closed a
  · rcases s.items_step a with same | taken | ⟨i, item, -, at_i, -⟩
    · exact same.queue.trans h.empty
    · obtain ⟨item, queue, -⟩ := taken.taken
      exact False.elim (List.cons_ne_nil _ _ (queue.symm.trans h.empty))
    · exact False.elim (h.quiet item (List.mem_of_getElem? at_i))
  · intro item mem
    rcases pushing_step mem with before | opened
    · exact h.quiet item before
    · exact Bool.false_ne_true (opened.symm.trans h.closed)

theorem Final.drained (h : Final s) : Drained s := by
  have perm := h.conserved.partitioned
  rw [h.empty, List.append_nil] at perm
  exact ⟨h.empty, perm, h.conserved.counted⟩

/-- The receiver looks for the last time at a closed channel, and has the last word. -/
structure Settled (s : Shared T) : Prop where
  conserved : Conserved s
  looking : s.receiver = .lastPop → s.closed = true
  final : s.ended = true → Final s

theorem settled_bounded (capacity : Nat) (positive : 0 < capacity) :
    Settled (Shared.bounded (T := T) capacity positive) := by
  constructor
  · exact ⟨List.Perm.refl _, rfl⟩
  · intro looks
    cases looks
  · intro ended
    cases ended

theorem Settled.none_is_final (h : Settled s) : NoneIsFinal s := by
  intro ended more
  have kept : ∀ (t : Shared T) (a : Act T), Final t → Final (t.step a) := fun _ a final => final.kept a
  exact (exec_keeps kept (h.final ended) more).drained

theorem Settled.kept (h : Settled s) (quiet : LastLookQuiet s a) : Settled (s.step a) := by
  constructor
  · exact conserved_step h.conserved a
  · exact looking_step h.looking
  · intro ended
    rcases ended_step ended with before | ⟨rfl, looking, empty⟩
    · exact (h.final before).kept a
    · have final : Final s := ⟨h.conserved, h.looking looking, empty, quiet looking empty⟩
      exact final.kept .receiver

/-- A sender that stands before its push at the last look pushes after it. -/
theorem Settled.lost (final : NoneIsFinal (s.step a)) : LastLookQuiet s a := by
  cases a with
  | receiver =>
    intro looking empty item mem
    obtain ⟨i, at_i⟩ := List.mem_iff_getElem?.mp mem
    have after : s.step .receiver = { s with receiver := .idle, ended := true } := by
      simp [Shared.step, looking, Shared.receiverStep, Shared.take, empty]
    have drained := final (by rw [after]) [.sender i]
    rw [after, exec_cons, exec_nil] at drained
    have queue := drained.empty
    simp [Shared.step, at_i, Shared.senderStep, Shared.push] at queue
  | _ => trivial

end Items

/-- A receive that returns nothing is the last word in every state that a run of the
channel reaches exactly when no sender stands before its push at a last look that finds the
queue empty. -/
theorem none_is_final_iff (capacity : Nat) (positive : 0 < capacity) (acts : List (Act T)) :
    (∀ past rest, past ++ rest = acts →
        NoneIsFinal (exec Shared.step (Shared.bounded capacity positive) past)) ↔
      Meets Shared.step LastLookQuiet (Shared.bounded capacity positive) acts :=
  follows_iff_meets (fun _ h => h.none_is_final) (fun _ _ h quiet => h.kept quiet)
    (fun _ _ _ final => Settled.lost final) (settled_bounded capacity positive) acts

/-- The first sender finds the channel open, and its clone closes it. The receiver looks for
the last time before the first sender pushes. -/
def lateSend : List (Act Nat) :=
  [.call 0 .clone, .call 0 (.send 7), .sender 0, .call 1 .close, .recv, .receiver, .receiver,
    .receiver]

/-- The receive has returned nothing, and the item that is pushed then stays queued. -/
theorem late_send_after_none : ¬ NoneIsFinal
    (exec Shared.step (Shared.bounded 1 Nat.one_pos) lateSend) := by
  intro final
  have drained := final rfl [.sender 0]
  cases drained.empty

/-- A send, a close and two receives, of which the second returns nothing. -/
def sendThenClose : List (Act Nat) :=
  [.call 0 (.send 7), .sender 0, .sender 0, .sender 0, .sender 0, .call 0 .close, .sender 0,
    .recv, .receiver, .receiver, .recv, .receiver, .receiver, .receiver]

theorem none_is_final_one :
    NoneIsFinal (exec Shared.step (Shared.bounded 1 Nat.one_pos) sendThenClose) := by
  refine (none_is_final_iff 1 Nat.one_pos sendThenClose).mpr ?_ sendThenClose [] (List.append_nil _)
  simp [sendThenClose, Meets, LastLookQuiet, Shared.bounded, Shared.step, Shared.begin,
    Shared.senderStep, Shared.receiverStep, Shared.goto, Shared.push, Shared.take, Shared.notifyOne,
    Shared.notifyWaiters, Shared.notifySpace, ReceiverPc.woken, SenderPc.woken]

end FinalReceives
