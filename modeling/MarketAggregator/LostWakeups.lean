import MarketAggregator.ChannelSteps

/-!
# When nobody sleeps through a change

A receiver that has looked and found nothing is awake, or the push or close that came since
is about to notify it. The senders that wait for space are notified by every pop and by no
close, so that they sleep through a close unless a pop is about to notify them.
-/

namespace LostWakeups

open ChannelSteps GuardedRuns

universe u

variable {T : Type u}

/-- A pushed item has not been announced yet. -/
def PushComing (s : Shared T) : Prop := ∃ evicted, .pushed evicted ∈ s.senders

/-- A close is stored and not announced yet. -/
def CloseComing (s : Shared T) : Prop := .closing ∈ s.senders ∨ .dropped ∈ s.senders

/-- A pop has not been announced yet. -/
def PopComing (s : Shared T) : Prop := s.pops ≠ 0 ∨ ∃ item, s.receiver = .popped item

/-- No update is between itself and its notification. -/
def Quiet (s : Shared T) : Prop := ¬ PushComing s ∧ ¬ CloseComing s ∧ ¬ PopComing s

/-- Whoever is parked without a pending wakeup has a reason to be. -/
structure NoLostWakeup (s : Shared T) : Prop where
  receiver : Quiet s → s.receiver = .parked false → s.queue = [] ∧ s.closed = false
  senders : Quiet s → ∀ item, .waiting item false ∈ s.senders →
    s.queue.length = s.capacity ∧ s.closed = false

/-- A handle closes the channel, or a lossless send goes to wait in a closed one, only if a
pop is about to notify those who wait for space, or if there are none. -/
def OpenForWaiters (s : Shared T) (a : Act T) : Prop :=
  match a with
  | .call i .close => s.senders[i]? = some .idle →
      PopComing s ∨ ∀ item, .waiting item false ∉ s.senders
  | .sender i => ∀ item, s.senders[i]? = some (.measuring item false) →
      s.capacity ≤ s.queue.length → s.closed = false ∨ PopComing s
  | _ => True

section Receiver

variable {s : Shared T} {i : Nat} {pc : SenderPc T} {a : Act T}

/-- A push is announced to the receiver, or by a permit if it is not parked. -/
theorem pushComing_step (a : Act T) (coming : PushComing s) : PushComing (s.step a) ∨
    (s.receiver ≠ .parked false ∧ (s.step a).permit = true) ∨
      (s.step a).receiver = .parked true := by
  obtain ⟨evicted, mem⟩ := coming
  rcases Shared.stays_or_steps a mem rfl (by intro idle; cases idle) with stays | ⟨i, rfl, at_i⟩
  · exact .inl ⟨evicted, stays⟩
  · simp only [Shared.step, at_i, Shared.senderStep]
    rcases s.notifyOne_cases with ⟨-, h⟩ | ⟨awake, h⟩
    · exact .inr (.inr (by rw [h]; rfl))
    · exact .inr (.inl ⟨awake, by rw [h]; rfl⟩)

/-- A close is announced to every future of the receiver. -/
theorem closeComing_step (a : Act T) (coming : CloseComing s) :
    CloseComing (s.step a) ∨ (s.step a).receiver = s.receiver.woken := by
  rcases coming with mem | mem
  · rcases Shared.stays_or_steps a mem rfl (by intro idle; cases idle) with stays | ⟨i, rfl, at_i⟩
    · exact .inl (.inl stays)
    · simp only [Shared.step, at_i]
      exact .inr rfl
  · rcases Shared.stays_or_steps a mem rfl (by intro idle; cases idle) with stays | ⟨i, rfl, at_i⟩
    · exact .inl (.inr stays)
    · simp only [Shared.step, at_i]
      exact .inr rfl

theorem queue_step (a : Act T) (empty : s.queue = []) :
    (s.step a).queue = [] ∨ PushComing (s.step a) := by
  rcases s.items_step a with same | taken | ⟨i, item, rfl, at_i, pushed⟩
  · exact .inl (same.queue.trans empty)
  · obtain ⟨item, queue, -⟩ := taken.taken
    exact False.elim (List.cons_ne_nil _ _ (queue.symm.trans empty))
  · obtain ⟨inside, -⟩ := List.getElem?_eq_some_iff.mp at_i
    rw [pushed]
    exact .inr ⟨_, List.mem_set inside _⟩

/-- The channel is closed by a call, or by the sender that dropped the last handle. -/
theorem closed_step (a : Act T) (closed : (s.step a).closed = true) : s.closed = true ∨
    (∃ i, a = .call i .close ∧ s.senders[i]? = some .idle ∧ .closing ∈ (s.step a).senders) ∨
      (.dropping ∈ s.senders ∧ .dropped ∈ (s.step a).senders) := by
  cases a with
  | call i op =>
    by_cases holder : s.senders[i]? = some .idle
    · cases op with
      | close =>
        obtain ⟨inside, -⟩ := List.getElem?_eq_some_iff.mp holder
        refine .inr (.inl ⟨i, rfl, holder, ?_⟩)
        simp only [Shared.step, holder]
        exact List.mem_set inside _
      | _ =>
        simp only [Shared.step, holder] at closed
        exact .inl closed
    · rw [Shared.step] at closed
      split at closed
      · rename_i idle
        exact False.elim (holder idle)
      · exact .inl closed
  | sender i =>
    rw [Shared.step] at closed
    split at closed
    · rename_i pc at_i
      by_cases dropping : pc = .dropping
      · subst dropping
        obtain ⟨inside, -⟩ := List.getElem?_eq_some_iff.mp at_i
        refine .inr (.inr ⟨List.mem_of_getElem? at_i, ?_⟩)
        simp only [Shared.step, at_i]
        exact List.mem_set inside _
      · exact .inl ((Shared.closed_sender dropping).symm.trans closed)
    · exact .inl closed
  | receiver => exact .inl (Shared.closed_receiver.symm.trans closed)
  | recv =>
    rw [Shared.step] at closed
    split at closed <;> exact .inl closed
  | tryRecv =>
    rw [Shared.step] at closed
    split at closed <;> exact .inl closed
  | tryNotify =>
    rw [Shared.step] at closed
    split at closed <;> exact .inl closed

/-- A receiver that is about to sleep, or sleeps, has nothing to wake up for. -/
structure ReceiverAwake (s : Shared T) : Prop where
  looked : s.receiver = .reloading false ∨ s.receiver = .awaiting false →
    s.queue = [] ∨ s.permit = true ∨ PushComing s
  parked : s.receiver = .parked false → s.queue = [] ∨ PushComing s
  opened : s.receiver = .awaiting false ∨ s.receiver = .parked false →
    s.closed = false ∨ CloseComing s

theorem opened_step (a : Act T) (opened : s.closed = false ∨ CloseComing s) :
    ((s.step a).closed = false ∨ CloseComing (s.step a)) ∨
      (s.step a).receiver = s.receiver.woken := by
  rcases opened with opened | coming
  · by_cases closed : (s.step a).closed = true
    · rcases closed_step a closed with before | ⟨i, -, -, mem⟩ | ⟨-, mem⟩
      · exact False.elim (Bool.false_ne_true (opened.symm.trans before))
      · exact .inl (.inr (.inl mem))
      · exact .inl (.inr (.inr mem))
    · exact .inl (.inl (by simpa using closed))
  · exact (closeComing_step a coming).imp .inr id

theorem woken_ne (rc : ReceiverPc T) : rc.woken ≠ .reloading false ∧ rc.woken ≠ .awaiting false ∧
    rc.woken ≠ .parked false := by
  cases rc <;> simp [ReceiverPc.woken]

theorem permit_step (other : a ≠ .receiver) (permit : s.permit = true) :
    (s.step a).permit = true := by
  cases a with
  | receiver => exact False.elim (other rfl)
  | call i op =>
    rw [Shared.step]
    split
    · cases op <;> exact permit
    · exact permit
  | sender i =>
    rw [Shared.step]
    split
    · rename_i pc at_i
      cases pc with
      | pushed evicted =>
        rcases s.notifyOne_cases with ⟨-, h⟩ | ⟨-, h⟩
        · rw [Shared.senderStep, h]
          exact permit
        · rw [Shared.senderStep, h]
          rfl
      | waiting item woken => cases woken <;> exact permit
      | _ => exact permit
    · exact permit
  | recv =>
    rw [Shared.step]
    split <;> exact permit
  | tryRecv =>
    rw [Shared.step]
    split <;> exact permit
  | tryNotify =>
    rw [Shared.step]
    split <;> exact permit

theorem awake_of_ne (apart : s.receiver ≠ .reloading false ∧ s.receiver ≠ .awaiting false ∧
    s.receiver ≠ .parked false) : ReceiverAwake s := by
  constructor
  · rintro (stays | stays)
    · exact False.elim (apart.1 stays)
    · exact False.elim (apart.2.1 stays)
  · intro stays
    exact False.elim (apart.2.2 stays)
  · rintro (stays | stays)
    · exact False.elim (apart.2.1 stays)
    · exact False.elim (apart.2.2 stays)

theorem ReceiverAwake.others (h : ReceiverAwake s) (other : a ≠ .receiver) :
    ReceiverAwake (s.step a) := by
  have asleep := woken_ne s.receiver
  cases s.receiver_step other with
  | woken receiver =>
    rw [← receiver] at asleep
    exact awake_of_ne asleep
  | called idle receiver => exact awake_of_ne (by simp [receiver])
  | same receiver =>
    constructor
    · intro stays
      rcases h.looked (receiver ▸ stays) with empty | permit | coming
      · exact (queue_step a empty).imp id .inr
      · exact .inr (.inl (permit_step other permit))
      · rcases pushComing_step a coming with still | ⟨-, permit⟩ | woken
        · exact .inr (.inr still)
        · exact .inr (.inl permit)
        · rw [woken] at stays
          simp at stays
    · intro stays
      rcases h.parked (receiver.symm.trans stays) with empty | coming
      · exact queue_step a empty
      · rcases pushComing_step a coming with still | ⟨awake, -⟩ | woken
        · exact .inr still
        · exact False.elim (awake (receiver.symm.trans stays))
        · rw [woken] at stays
          simp at stays
    · intro stays
      rcases opened_step a (h.opened (receiver ▸ stays)) with still | woken
      · exact still
      · rw [woken] at stays
        exact False.elim (stays.elim asleep.2.1 asleep.2.2)

theorem ReceiverAwake.own (h : ReceiverAwake s) : ReceiverAwake (s.step .receiver) := by
  rw [Shared.step]
  cases receiver : s.receiver with
  | idle => exact h
  | popping =>
    refine awake_of_ne ?_
    rcases s.take_cases .loading with ⟨-, taken⟩ | ⟨item, rest, -, taken⟩ <;>
      simp [Shared.receiverStep, taken]
  | loading =>
    refine awake_of_ne ?_
    cases closed : s.closed <;> simp [Shared.receiverStep, closed]
  | subscribing => exact awake_of_ne (by simp [Shared.receiverStep])
  | repopping woken =>
    rcases s.take_cases (.reloading woken) with ⟨empty, taken⟩ | ⟨item, rest, -, taken⟩
    · rw [Shared.receiverStep, taken]
      constructor
      · exact fun _ => .inl empty
      · intro stays
        cases stays
      · rintro (stays | stays) <;> cases stays
    · exact awake_of_ne (by simp [Shared.receiverStep, taken])
  | reloading woken =>
    cases closed : s.closed with
    | true => exact awake_of_ne (by simp [Shared.receiverStep, closed])
    | false =>
      rw [Shared.receiverStep, closed]
      constructor
      · rintro (stays | stays)
        · cases stays
        · cases stays
          exact h.looked (.inl receiver)
      · intro stays
        cases stays
      · exact fun _ => .inl rfl
  | awaiting woken =>
    by_cases permit : s.permit = true
    · exact awake_of_ne (by simp [Shared.receiverStep, permit])
    · cases woken with
      | true => exact awake_of_ne (by simp [Shared.receiverStep, permit])
      | false =>
        simp only [Shared.receiverStep, permit]
        constructor
        · rintro (stays | stays) <;> cases stays
        · intro _
          exact (h.looked (.inr receiver)).imp id fun coming => coming.resolve_left permit
        · exact fun _ => h.opened (.inl receiver)
  | parked woken =>
    cases woken with
    | true => exact awake_of_ne (by simp [Shared.receiverStep])
    | false => exact h
  | lastPop =>
    refine awake_of_ne ?_
    rcases s.take_cases .idle with ⟨-, taken⟩ | ⟨item, rest, -, taken⟩ <;>
      simp [Shared.receiverStep, taken]
  | popped item => exact awake_of_ne (by simp [Shared.receiverStep])

theorem ReceiverAwake.kept (h : ReceiverAwake s) (a : Act T) : ReceiverAwake (s.step a) := by
  by_cases own : a = .receiver
  · rw [own]
    exact h.own
  · exact h.others own

end Receiver

section Senders

variable {s : Shared T} {i : Nat} {pc : SenderPc T} {a : Act T} {item : T}

/-- The handles are counted, and nobody has one when the last is given up. -/
structure HandlesCounted (s : Shared T) : Prop where
  counted : s.senderCount = s.senders.countP SenderPc.holds
  last : .dropping ∈ s.senders ∨ .dropped ∈ s.senders → s.senderCount = 0

theorem HandlesCounted.none_holds (h : HandlesCounted s) (zero : s.senderCount = 0)
    (mem : pc ∈ s.senders) : pc.holds = false := by
  have none := List.countP_eq_zero.mp (h.counted.symm.trans zero)
  simpa using none pc mem

theorem holds_woken (pc : SenderPc T) : pc.woken.holds = pc.holds := by
  cases pc <;> rfl

theorem HandlesCounted.kept (h : HandlesCounted s) (a : Act T) : HandlesCounted (s.step a) := by
  have counted := h.counted
  cases s.senders_step a with
  | same senders count =>
    constructor
    · rw [senders, count, counted]
    · rw [senders, count]
      exact h.last
  | woken senders count =>
    constructor
    · rw [senders, count, counted, List.countP_map]
      exact List.countP_congr fun pc _ => by rw [Function.comp, holds_woken]
    · rw [senders, count]
      rintro (mem | mem)
      · obtain ⟨pc, before, woken⟩ := List.mem_map.mp mem
        cases pc <;> cases woken
        exact h.last (.inl before)
      · obtain ⟨pc, before, woken⟩ := List.mem_map.mp mem
        cases pc <;> cases woken
        exact h.last (.inr before)
  | cloned i holder senders count =>
    constructor
    · rw [senders, count, counted, List.countP_append]
      rfl
    · rw [senders]
      intro last
      have before : .dropping ∈ s.senders ∨ .dropped ∈ s.senders := by simpa using last
      have idle := h.none_holds (h.last before) (List.mem_of_getElem? holder)
      exact False.elim (by cases idle)
  | moved i old new at_i edge act senders count =>
    have moved := countP_moved new SenderPc.holds at_i
    have zero : s.senderCount = 0 → (s.step a).senderCount = 0 := by
      intro zero
      rw [count]
      split <;> omega
    constructor
    · rw [senders, count]
      cases edge <;> simp [SenderPc.holds] at moved ⊢ <;> omega
    · rw [senders]
      rintro (mem | mem)
      · rcases List.mem_or_eq_of_mem_set mem with before | rfl
        · exact zero (h.last (.inl before))
        · cases edge with
          | dropLast last => rw [count, last]; rfl
      · rcases List.mem_or_eq_of_mem_set mem with before | rfl
        · exact zero (h.last (.inr before))
        · cases edge with
          | store => exact zero (h.last (.inl (List.mem_of_getElem? at_i)))

theorem frame_sender : (s.senderStep i pc).capacity = s.capacity ∧
    (s.senderStep i pc).pops = s.pops := by
  cases pc with
  | pushed evicted =>
    rcases s.notifyOne_cases with ⟨-, h⟩ | ⟨-, h⟩ <;> rw [Shared.senderStep, h] <;> exact ⟨rfl, rfl⟩
  | waiting item woken => cases woken <;> exact ⟨rfl, rfl⟩
  | _ => exact ⟨rfl, rfl⟩

theorem frame_take (empty : ReceiverPc T) : (s.take empty).capacity = s.capacity ∧
    (s.take empty).pops = s.pops := by
  rcases s.take_cases empty with ⟨-, h⟩ | ⟨item, rest, -, h⟩ <;> rw [h] <;> exact ⟨rfl, rfl⟩

theorem frame_receiver {rc : ReceiverPc T} : (s.receiverStep rc).capacity = s.capacity ∧
    (s.receiverStep rc).pops = s.pops := by
  cases rc with
  | popping => exact frame_take _
  | repopping woken => exact frame_take _
  | lastPop => exact frame_take .idle
  | awaiting woken =>
    rw [Shared.receiverStep]
    split <;> exact ⟨rfl, rfl⟩
  | parked woken => cases woken <;> exact ⟨rfl, rfl⟩
  | _ => exact ⟨rfl, rfl⟩

theorem capacity_step (s : Shared T) (a : Act T) : (s.step a).capacity = s.capacity := by
  cases a with
  | call i op =>
    rw [Shared.step]
    split
    · cases op <;> rfl
    · rfl
  | sender i =>
    rw [Shared.step]
    split
    · exact frame_sender.1
    · rfl
  | receiver => exact frame_receiver.1
  | recv =>
    rw [Shared.step]
    split <;> rfl
  | tryRecv =>
    rw [Shared.step]
    split <;> rfl
  | tryNotify =>
    rw [Shared.step]
    split <;> rfl

theorem pops_step (a : Act T) (coming : s.pops ≠ 0) :
    (s.step a).pops ≠ 0 ∨ (s.step a).senders = s.senders.map SenderPc.woken := by
  cases a with
  | call i op =>
    rw [Shared.step]
    split
    · cases op <;> exact .inl coming
    · exact .inl coming
  | sender i =>
    rw [Shared.step]
    split
    · exact .inl (by rwa [frame_sender.2])
    · exact .inl coming
  | receiver => exact .inl (by rwa [Shared.step, frame_receiver.2])
  | recv =>
    rw [Shared.step]
    split <;> exact .inl coming
  | tryRecv =>
    rw [Shared.step]
    split
    · exact .inl coming
    · exact .inl (Nat.succ_ne_zero _)
  | tryNotify =>
    rw [Shared.step, if_neg coming]
    exact .inr rfl

/-- A pop is announced to every future of the senders. -/
theorem popComing_step (a : Act T) (coming : PopComing s) :
    PopComing (s.step a) ∨ (s.step a).senders = s.senders.map SenderPc.woken := by
  rcases coming with pops | ⟨item, popped⟩
  · exact (pops_step a pops).imp .inl id
  · by_cases own : a = .receiver
    · subst own
      simp only [Shared.step, popped]
      exact .inr rfl
    · cases s.receiver_step own with
      | same receiver => exact .inl (.inr ⟨item, receiver.trans popped⟩)
      | woken receiver => exact .inl (.inr ⟨item, by rw [receiver, popped]; rfl⟩)
      | called idle receiver =>
        rw [popped] at idle
        cases idle

theorem length_step (a : Act T) (bound : s.queue.length ≤ s.capacity) :
    (s.step a).queue.length ≤ (s.step a).capacity := by
  rw [capacity_step]
  rcases s.items_step a with same | taken | ⟨i, item, -, -, pushed⟩
  · rw [same.queue]
    exact bound
  · obtain ⟨item, queue, -⟩ := taken.taken
    rw [queue, List.length_cons] at bound
    omega
  · have positive := s.positive
    rw [pushed]
    by_cases full : s.capacity ≤ s.queue.length
    · simp only [Shared.push, full, if_true, List.length_append, List.length_tail,
        List.length_singleton]
      omega
    · simp only [Shared.push, full, if_false, List.length_append, List.length_singleton]
      omega

theorem full_step (a : Act T) (full : s.capacity ≤ s.queue.length) :
    (s.step a).capacity ≤ (s.step a).queue.length ∨ PopComing (s.step a) := by
  rcases s.items_step a with same | taken | ⟨i, item, -, -, pushed⟩
  · rw [capacity_step, same.queue]
    exact .inl full
  · exact .inr taken.coming
  · have positive := s.positive
    refine .inl ?_
    rw [capacity_step, pushed]
    simp only [Shared.push, full, if_true, List.length_append, List.length_tail,
      List.length_singleton]
    omega

theorem not_mem_woken : .waiting item false ∉ s.senders.map SenderPc.woken := by
  intro mem
  obtain ⟨pc, -, woken⟩ := List.mem_map.mp mem
  cases pc <;> cases woken

/-- A sender that goes to wait has measured a full queue just now. -/
theorem waiting_step (mem : .waiting item false ∈ (s.step a).senders) :
    .waiting item false ∈ s.senders ∨
      ∃ i, a = .sender i ∧ s.senders[i]? = some (.measuring item false) ∧
        s.capacity ≤ s.queue.length := by
  cases s.senders_step a with
  | same senders => exact .inl (senders ▸ mem)
  | cloned i holder senders =>
    rw [senders] at mem
    exact .inl (by simpa using mem)
  | woken senders =>
    rw [senders] at mem
    exact False.elim (not_mem_woken mem)
  | moved i old new at_i edge act senders =>
    rw [senders] at mem
    rcases List.mem_or_eq_of_mem_set mem with before | rfl
    · exact .inl before
    · cases edge with
      | full item woken no_room =>
        rcases act with idle | sender
        · cases idle
        · exact .inr ⟨i, sender, at_i, no_room⟩

/-- A sender that waits without a pending wakeup waits for room in an open channel, unless a
pop is coming. -/
structure SendersAwake (s : Shared T) : Prop where
  handles : HandlesCounted s
  bound : s.queue.length ≤ s.capacity
  room : ∀ item, .waiting item false ∈ s.senders → s.capacity ≤ s.queue.length ∨ PopComing s
  opened : ∀ item, .waiting item false ∈ s.senders → s.closed = false ∨ PopComing s

theorem SendersAwake.stays_coming (coming : PopComing s)
    (mem : .waiting item false ∈ (s.step a).senders) : PopComing (s.step a) := by
  refine (popComing_step a coming).resolve_right ?_
  intro woken
  rw [woken] at mem
  exact not_mem_woken mem

/-- The last handle is not given up while a sender waits or is about to. -/
theorem SendersAwake.not_dropping (h : SendersAwake s) (dropping : .dropping ∈ s.senders)
    (mem : .waiting item false ∈ (s.step a).senders) : False := by
  have zero := h.handles.last (.inl dropping)
  rcases waiting_step mem with before | ⟨i, -, at_i, -⟩
  · cases h.handles.none_holds zero before
  · cases h.handles.none_holds zero (List.mem_of_getElem? at_i)

theorem SendersAwake.kept (h : SendersAwake s) (ok : OpenForWaiters s a) :
    SendersAwake (s.step a) := by
  constructor
  · exact h.handles.kept a
  · exact length_step a h.bound
  · intro item mem
    rcases waiting_step mem with before | ⟨i, -, -, full⟩
    · rcases h.room item before with full | coming
      · exact full_step a full
      · exact .inr (stays_coming coming mem)
    · exact full_step a full
  · intro item mem
    by_cases closed : (s.step a).closed = true
    · refine .inr (stays_coming ?_ mem)
      rcases closed_step a closed with before_closed | ⟨i, rfl, holder, -⟩ | ⟨dropping, -⟩
      · have shut : s.closed ≠ false := by simp [before_closed]
        rcases waiting_step mem with before | ⟨i, rfl, at_i, full⟩
        · exact (h.opened item before).resolve_left shut
        · exact (ok item at_i full).resolve_left shut
      · rcases waiting_step mem with before | ⟨j, sender, -, -⟩
        · exact (ok holder).resolve_right fun none => none item before
        · cases sender
      · exact False.elim (h.not_dropping dropping mem)
    · exact .inl (by simpa using closed)

end Senders

structure Awake (s : Shared T) : Prop where
  receiver : ReceiverAwake s
  senders : SendersAwake s

theorem awake_bounded (capacity : Nat) (positive : 0 < capacity) :
    Awake (Shared.bounded (T := T) capacity positive) := by
  constructor
  · exact awake_of_ne (by simp [Shared.bounded])
  · constructor
    · exact ⟨rfl, by simp [Shared.bounded]⟩
    · exact Nat.zero_le _
    · intro item mem
      simp [Shared.bounded] at mem
    · intro item mem
      simp [Shared.bounded] at mem

theorem Awake.none_lost {s : Shared T} (h : Awake s) : NoLostWakeup s := by
  constructor
  · intro quiet parked
    constructor
    · exact (h.receiver.parked parked).resolve_right quiet.1
    · exact (h.receiver.opened (.inr parked)).resolve_right quiet.2.1
  · intro quiet item mem
    have room := (h.senders.room item mem).resolve_right quiet.2.2
    exact ⟨Nat.le_antisymm h.senders.bound room,
      (h.senders.opened item mem).resolve_right quiet.2.2⟩

/-- Nobody sleeps through a push, a pop, a close or the last drop in any state of a run on
which no handle closes the channel under a sender that waits for space. -/
theorem no_lost_wakeup (capacity : Nat) (positive : 0 < capacity) (acts : List (Act T))
    (opened : Meets Shared.step OpenForWaiters (Shared.bounded capacity positive) acts) :
    ∀ past rest, past ++ rest = acts →
      NoLostWakeup (exec Shared.step (Shared.bounded capacity positive) past) := by
  rintro past rest rfl
  have kept : ∀ (s : Shared T) (a : Act T), Awake s → OpenForWaiters s a → Awake (s.step a) :=
    fun _ a awake ok => ⟨awake.receiver.kept a, awake.senders.kept ok⟩
  have start := awake_bounded (T := T) capacity positive
  exact (exec_invariant kept start (meets_append.mp opened).1).none_lost

/-- A full channel, a lossless send that waits for room, and a clone that closes it. -/
def closeOverWaiter : List (Act Nat) :=
  [.call 0 .clone, .call 0 (.send 1), .sender 0, .sender 0, .sender 0, .sender 0,
    .call 0 (.sendLossless 2), .sender 0, .sender 0, .sender 0, .call 1 .close, .sender 1]

theorem close_over_waiter_lost : ¬ NoLostWakeup
    (exec Shared.step (Shared.bounded 1 Nat.one_pos) closeOverWaiter) := by
  intro awake
  have quiet : Quiet (exec Shared.step (Shared.bounded 1 Nat.one_pos) closeOverWaiter) := by
    simp [Quiet, PushComing, CloseComing, PopComing, closeOverWaiter, Shared.bounded, Shared.step,
      Shared.begin, Shared.senderStep, Shared.goto, Shared.push, Shared.notifyOne,
      Shared.notifyWaiters, ReceiverPc.woken]
  have waits : SenderPc.waiting 2 false ∈
      (exec Shared.step (Shared.bounded 1 Nat.one_pos) closeOverWaiter).senders :=
    List.mem_cons_self
  cases (awake.senders quiet 2 waits).2

/-- A lossless send that waits is let in by a receive, and the channel is closed after it. -/
def waiterLetIn : List (Act Nat) :=
  [.call 0 .clone, .call 0 (.send 1), .sender 0, .sender 0, .sender 0, .sender 0,
    .call 0 (.sendLossless 2), .sender 0, .sender 0, .sender 0, .recv, .receiver, .receiver,
    .sender 0, .call 1 .close]

theorem no_lost_wakeup_waiter :
    NoLostWakeup (exec Shared.step (Shared.bounded 1 Nat.one_pos) waiterLetIn) := by
  refine no_lost_wakeup 1 Nat.one_pos waiterLetIn ?_ waiterLetIn [] (List.append_nil _)
  simp [waiterLetIn, Meets, OpenForWaiters, Shared.bounded, Shared.step, Shared.begin,
    Shared.senderStep, Shared.receiverStep, Shared.goto, Shared.push, Shared.take, Shared.notifyOne,
    Shared.notifySpace, SenderPc.woken]

end LostWakeups
