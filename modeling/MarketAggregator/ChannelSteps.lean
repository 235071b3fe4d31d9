import MarketAggregator.GuardedRuns
import Mathlib.Data.List.Basic

/-!
# The channel in its atomic steps

Several senders and one receiver share a queue, a closed flag and two notifiers. A call
is a sequence of atomic steps, and any other party may step between two of them. A
notification to one waiter is stored as a permit if nobody waits. A notification to
all waiters reaches every future that was created before it, polled or not. Each sender
owns one handle.
-/

namespace ChannelSteps

open GuardedRuns

universe u

/-- The next step of a sender. A send is `sending` and then `pushing`, `pushed` and
`counting`; a lossless one waits in front of it. -/
inductive SenderPc (T : Type u) where
  | gone
  | idle
  | sending (item : T)
  | pushing (item : T)
  | pushed (evicted : Option T)
  | counting (evicted : Option T)
  | checking (item : T)
  | subscribing (item : T)
  | measuring (item : T) (woken : Bool)
  | waiting (item : T) (woken : Bool)
  | closing
  | dropping
  | dropped

/-- The next step of the receiver. Between its future and the wait it looks again. -/
inductive ReceiverPc (T : Type u) where
  | idle
  | popping
  | loading
  | subscribing
  | repopping (woken : Bool)
  | reloading (woken : Bool)
  | awaiting (woken : Bool)
  | parked (woken : Bool)
  | lastPop
  | popped (item : T)

/-- What a notification to all makes of a sender that waits for space. -/
def SenderPc.woken {T : Type u} : SenderPc T → SenderPc T
  | .measuring item _ => .measuring item true
  | .waiting item _ => .waiting item true
  | pc => pc

def ReceiverPc.woken {T : Type u} : ReceiverPc T → ReceiverPc T
  | .repopping _ => .repopping true
  | .reloading _ => .reloading true
  | .awaiting _ => .awaiting true
  | .parked _ => .parked true
  | pc => pc

/-- The sender has its handle. -/
def SenderPc.holds {T : Type u} : SenderPc T → Bool
  | .gone => false
  | .dropping => false
  | .dropped => false
  | _ => true

inductive SenderCall (T : Type u) where
  | send (item : T)
  | sendLossless (item : T)
  | close
  | clone
  | drop

/-- The channel with the history of its items. `pops` of the items that `tryRecv` took have
not been announced to the senders yet; `ended` says that a receive has returned nothing. -/
structure Shared (T : Type u) where
  capacity : Nat
  positive : 0 < capacity
  queue : List T
  closed : Bool
  count : Nat
  senderCount : Nat
  permit : Bool
  senders : List (SenderPc T)
  receiver : ReceiverPc T
  pops : Nat
  accepted : List T
  received : List T
  evicted : List T
  ended : Bool

inductive Act (T : Type u) where
  | call (i : Nat) (op : SenderCall T)
  | sender (i : Nat)
  | recv
  | receiver
  | tryRecv
  | tryNotify

namespace Shared

variable {T : Type u}

/-- One sender with one handle. -/
def bounded (capacity : Nat) (positive : 0 < capacity) : Shared T where
  capacity := capacity
  positive := positive
  queue := []
  closed := false
  count := 0
  senderCount := 1
  permit := false
  senders := [.idle]
  receiver := .idle
  pops := 0
  accepted := []
  received := []
  evicted := []
  ended := false

def goto (s : Shared T) (i : Nat) (pc : SenderPc T) : Shared T :=
  { s with senders := s.senders.set i pc }

def notifyOne (s : Shared T) : Shared T :=
  match s.receiver with
  | .parked false => { s with receiver := .parked true }
  | _ => { s with permit := true }

def notifyWaiters (s : Shared T) : Shared T := { s with receiver := s.receiver.woken }

def notifySpace (s : Shared T) : Shared T := { s with senders := s.senders.map SenderPc.woken }

/-- Under the lock: the oldest item makes room in a full queue. -/
def push (s : Shared T) (i : Nat) (item : T) : Shared T :=
  let evicted := if s.capacity ≤ s.queue.length then s.queue.head? else none
  { s with
    queue := (if s.capacity ≤ s.queue.length then s.queue.tail else s.queue) ++ [item]
    accepted := s.accepted ++ [item]
    evicted := s.evicted ++ evicted.toList
    senders := s.senders.set i (.pushed evicted) }

/-- A call of an idle sender, to its first shared access. -/
def begin (s : Shared T) (i : Nat) : SenderCall T → Shared T
  | .send item => s.goto i (.sending item)
  | .sendLossless item => s.goto i (.checking item)
  | .close => { s with closed := true }.goto i .closing
  | .clone => { s with senderCount := s.senderCount + 1, senders := s.senders ++ [.idle] }
  | .drop =>
    { s with senderCount := s.senderCount - 1 }.goto i
      (if s.senderCount = 1 then .dropping else .gone)

def senderStep (s : Shared T) (i : Nat) : SenderPc T → Shared T
  | .gone => s
  | .idle => s
  | .sending item => s.goto i (if s.closed then .idle else .pushing item)
  | .pushing item => s.push i item
  | .pushed evicted => s.notifyOne.goto i (.counting evicted)
  | .counting evicted => { s with count := s.count + evicted.toList.length }.goto i .idle
  | .checking item => s.goto i (if s.closed then .idle else .subscribing item)
  | .subscribing item => s.goto i (.measuring item false)
  | .measuring item woken =>
    s.goto i (if s.queue.length < s.capacity then .sending item else .waiting item woken)
  | .waiting item woken => if woken then s.goto i (.checking item) else s
  | .closing => s.notifyWaiters.goto i .idle
  | .dropping => { s with closed := true }.goto i .dropped
  | .dropped => s.notifyWaiters.goto i .gone

/-- Pop under the lock, and go on if the queue is empty. -/
def take (s : Shared T) (empty : ReceiverPc T) : Shared T :=
  match s.queue with
  | [] => { s with receiver := empty }
  | item :: rest =>
    { s with queue := rest, received := s.received ++ [item], receiver := .popped item }

def receiverStep (s : Shared T) : ReceiverPc T → Shared T
  | .idle => s
  | .popping => s.take .loading
  | .loading => { s with receiver := if s.closed then .lastPop else .subscribing }
  | .subscribing => { s with receiver := .repopping false }
  | .repopping woken => s.take (.reloading woken)
  | .reloading woken => { s with receiver := if s.closed then .lastPop else .awaiting woken }
  | .awaiting woken =>
    if s.permit then { s with permit := false, receiver := .popping }
    else { s with receiver := if woken then .popping else .parked false }
  | .parked woken => if woken then { s with receiver := .popping } else s
  | .lastPop => { s.take .idle with ended := s.ended || s.queue.isEmpty }
  | .popped _ => { s.notifySpace with receiver := .idle }

def step (s : Shared T) : Act T → Shared T
  | .call i op => match s.senders[i]? with
    | some .idle => s.begin i op
    | _ => s
  | .sender i => match s.senders[i]? with
    | some pc => s.senderStep i pc
    | none => s
  | .recv => match s.receiver with
    | .idle => { s with receiver := .popping }
    | _ => s
  | .receiver => s.receiverStep s.receiver
  | .tryRecv => match s.queue with
    | [] => s
    | item :: rest =>
      { s with queue := rest, received := s.received ++ [item], pops := s.pops + 1 }
  | .tryNotify => if s.pops = 0 then s else { s.notifySpace with pops := s.pops - 1 }

end Shared

section Senders

variable {T : Type u} {l : List (SenderPc T)} {i : Nat} {old new pc : SenderPc T}

theorem countP_moved (new : SenderPc T) (p : SenderPc T → Bool) (at_i : l[i]? = some old) :
    (l.set i new).countP p + (if p old then 1 else 0) = l.countP p + (if p new then 1 else 0) := by
  obtain ⟨inside, rfl⟩ := List.getElem?_eq_some_iff.mp at_i
  rw [List.countP_set inside]
  split
  · rename_i counted
    have positive := List.countP_pos_iff.mpr ⟨l[i], List.getElem_mem inside, counted⟩
    omega
  · omega

/-- Another sender stays where it is. -/
theorem mem_moved (at_i : l[i]? = some old) (mem : pc ∈ l) (other : pc ≠ old) :
    pc ∈ l.set i new := by
  obtain ⟨j, at_j⟩ := List.mem_iff_getElem?.mp mem
  have apart : i ≠ j := by
    rintro rfl
    exact other (Option.some.inj (at_j.symm.trans at_i))
  exact List.mem_of_getElem? (i := j) (by rw [List.getElem?_set_ne apart, at_j])

end Senders

namespace Shared

variable {T : Type u} {s t : Shared T} {i : Nat} {pc : SenderPc T} {rc : ReceiverPc T} {a : Act T}

@[simp] theorem goto_queue : (s.goto i pc).queue = s.queue := rfl

@[simp] theorem goto_closed : (s.goto i pc).closed = s.closed := rfl

@[simp] theorem goto_receiver : (s.goto i pc).receiver = s.receiver := rfl

@[simp] theorem goto_senders : (s.goto i pc).senders = s.senders.set i pc := rfl

/-- A notification to one waiter touches the permit and the receiver and nothing else. -/
theorem notifyOne_cases : (s.receiver = .parked false ∧
      s.notifyOne = { s with receiver := .parked true }) ∨
    (s.receiver ≠ .parked false ∧ s.notifyOne = { s with permit := true }) := by
  by_cases asleep : s.receiver = .parked false
  · exact .inl ⟨asleep, by rw [notifyOne, asleep]⟩
  · refine .inr ⟨asleep, ?_⟩
    rw [notifyOne]
    split
    · rename_i parked
      exact False.elim (asleep parked)
    · rfl

@[simp] theorem notifyOne_queue : s.notifyOne.queue = s.queue := by
  rcases s.notifyOne_cases with ⟨-, h⟩ | ⟨-, h⟩ <;> rw [h]

@[simp] theorem notifyOne_closed : s.notifyOne.closed = s.closed := by
  rcases s.notifyOne_cases with ⟨-, h⟩ | ⟨-, h⟩ <;> rw [h]

@[simp] theorem notifyOne_senders : s.notifyOne.senders = s.senders := by
  rcases s.notifyOne_cases with ⟨-, h⟩ | ⟨-, h⟩ <;> rw [h]

/-- The items where they were. -/
structure SameItems (s t : Shared T) : Prop where
  queue : t.queue = s.queue
  accepted : t.accepted = s.accepted
  received : t.received = s.received
  evicted : t.evicted = s.evicted

/-- The oldest item handed out, and not announced yet. -/
structure Takes (s t : Shared T) : Prop where
  taken : ∃ item, s.queue = item :: t.queue ∧ t.received = s.received ++ [item]
  accepted : t.accepted = s.accepted
  evicted : t.evicted = s.evicted
  coming : t.pops ≠ 0 ∨ ∃ item, t.receiver = .popped item

theorem sameItems_notifyOne : SameItems s s.notifyOne := by
  rcases s.notifyOne_cases with ⟨-, h⟩ | ⟨-, h⟩ <;> exact ⟨by rw [h], by rw [h], by rw [h], by rw [h]⟩

theorem take_cases (s : Shared T) (empty : ReceiverPc T) :
    (s.queue = [] ∧ s.take empty = { s with receiver := empty }) ∨
      ∃ item rest, s.queue = item :: rest ∧ s.take empty = { s with
        queue := rest, received := s.received ++ [item], receiver := .popped item } := by
  cases queue : s.queue with
  | nil => exact .inl ⟨rfl, by rw [take, queue]⟩
  | cons item rest => exact .inr ⟨item, rest, rfl, by rw [take, queue]⟩

theorem items_take (empty : ReceiverPc T) : SameItems s (s.take empty) ∨ Takes s (s.take empty) := by
  rcases s.take_cases empty with ⟨-, h⟩ | ⟨item, rest, queue, h⟩
  · rw [h]
    exact .inl ⟨rfl, rfl, rfl, rfl⟩
  · rw [h]
    exact .inr ⟨⟨item, queue, rfl⟩, rfl, rfl, .inr ⟨item, rfl⟩⟩

theorem sameItems_begin (op : SenderCall T) : SameItems s (s.begin i op) := by
  cases op <;> exact ⟨rfl, rfl, rfl, rfl⟩

theorem sameItems_sender (other : ∀ item, pc ≠ .pushing item) :
    SameItems s (s.senderStep i pc) := by
  cases pc with
  | pushing item => exact False.elim (other item rfl)
  | pushed evicted =>
    have same := s.sameItems_notifyOne
    exact ⟨same.queue, same.accepted, same.received, same.evicted⟩
  | waiting item woken => cases woken <;> exact ⟨rfl, rfl, rfl, rfl⟩
  | _ => exact ⟨rfl, rfl, rfl, rfl⟩

theorem items_receiver : SameItems s (s.receiverStep rc) ∨ Takes s (s.receiverStep rc) := by
  cases rc with
  | popping => exact items_take _
  | repopping woken => exact items_take _
  | lastPop =>
    rcases s.items_take .idle with same | taken
    · exact .inl ⟨same.queue, same.accepted, same.received, same.evicted⟩
    · exact .inr ⟨taken.taken, taken.accepted, taken.evicted, taken.coming⟩
  | awaiting woken =>
    rw [receiverStep]
    split <;> exact .inl ⟨rfl, rfl, rfl, rfl⟩
  | parked woken => cases woken <;> exact .inl ⟨rfl, rfl, rfl, rfl⟩
  | _ => exact .inl ⟨rfl, rfl, rfl, rfl⟩

/-- The items move in three ways: not at all, out of the queue, or into it by a push. -/
theorem items_step (s : Shared T) (a : Act T) :
    SameItems s (s.step a) ∨ Takes s (s.step a) ∨
      ∃ i item, a = .sender i ∧ s.senders[i]? = some (.pushing item) ∧ s.step a = s.push i item := by
  have still : SameItems s s := ⟨rfl, rfl, rfl, rfl⟩
  cases a with
  | call i op =>
    rw [step]
    split
    · exact .inl (sameItems_begin op)
    · exact .inl still
  | sender i =>
    rw [step]
    split
    · rename_i pc at_i
      by_cases pushing : ∃ item, pc = .pushing item
      · obtain ⟨item, rfl⟩ := pushing
        exact .inr (.inr ⟨i, item, rfl, at_i, rfl⟩)
      · exact .inl (sameItems_sender fun item same => pushing ⟨item, same⟩)
    · exact .inl still
  | recv =>
    rw [step]
    split <;> exact .inl ⟨rfl, rfl, rfl, rfl⟩
  | receiver => exact s.items_receiver.imp id .inl
  | tryRecv =>
    rw [step]
    split
    · exact .inl still
    · rename_i item rest queue
      exact .inr (.inl ⟨⟨item, queue, rfl⟩, rfl, rfl, .inl (Nat.succ_ne_zero _)⟩)
  | tryNotify =>
    rw [step]
    split <;> exact .inl ⟨rfl, rfl, rfl, rfl⟩

/-- How the steps of a sender lead from one to the next. -/
inductive Edge (s : Shared T) : SenderPc T → SenderPc T → Prop
  | send (item : T) : Edge s .idle (.sending item)
  | sendLossless (item : T) : Edge s .idle (.checking item)
  | close : Edge s .idle .closing
  | dropLast (last : s.senderCount = 1) : Edge s .idle .dropping
  | drop (others : s.senderCount ≠ 1) : Edge s .idle .gone
  | refuse (item : T) (closed : s.closed = true) : Edge s (.sending item) .idle
  | enter (item : T) (opened : s.closed = false) : Edge s (.sending item) (.pushing item)
  | push (item : T) (evicted : Option T) : Edge s (.pushing item) (.pushed evicted)
  | notify (evicted : Option T) : Edge s (.pushed evicted) (.counting evicted)
  | count (evicted : Option T) : Edge s (.counting evicted) .idle
  | refuseLossless (item : T) (closed : s.closed = true) : Edge s (.checking item) .idle
  | check (item : T) (opened : s.closed = false) : Edge s (.checking item) (.subscribing item)
  | subscribe (item : T) : Edge s (.subscribing item) (.measuring item false)
  | room (item : T) (woken : Bool) : Edge s (.measuring item woken) (.sending item)
  | full (item : T) (woken : Bool) (no_room : s.capacity ≤ s.queue.length) :
    Edge s (.measuring item woken) (.waiting item woken)
  | wake (item : T) : Edge s (.waiting item true) (.checking item)
  | closed : Edge s .closing .idle
  | store : Edge s .dropping .dropped
  | dropped : Edge s .dropped .gone

/-- The senders move in three ways: one along an edge, one more, or all woken. A handle
that is given up is subtracted from the count. -/
inductive SendersStep (s : Shared T) (a : Act T) (t : Shared T) : Prop
  | same (senders : t.senders = s.senders) (count : t.senderCount = s.senderCount)
  | moved (i : Nat) (old new : SenderPc T) (at_i : s.senders[i]? = some old) (edge : Edge s old new)
    (act : old = .idle ∨ a = .sender i) (senders : t.senders = s.senders.set i new)
    (count : t.senderCount =
      if old.holds = true ∧ new.holds = false then s.senderCount - 1 else s.senderCount)
  | cloned (i : Nat) (holder : s.senders[i]? = some .idle)
    (senders : t.senders = s.senders ++ [.idle]) (count : t.senderCount = s.senderCount + 1)
  | woken (senders : t.senders = s.senders.map SenderPc.woken)
    (count : t.senderCount = s.senderCount)

theorem senders_begin (holder : s.senders[i]? = some .idle) (op : SenderCall T) :
    SendersStep s a (s.begin i op) := by
  cases op with
  | send item => exact .moved i _ _ holder (.send item) (.inl rfl) rfl rfl
  | sendLossless item => exact .moved i _ _ holder (.sendLossless item) (.inl rfl) rfl rfl
  | close => exact .moved i _ _ holder .close (.inl rfl) rfl rfl
  | clone => exact .cloned i holder rfl rfl
  | drop =>
    by_cases last : s.senderCount = 1
    · refine .moved i _ .dropping holder (.dropLast last) (.inl rfl) ?_ rfl
      simp [begin, goto, last]
    · refine .moved i _ .gone holder (.drop last) (.inl rfl) ?_ rfl
      simp [begin, goto, last]

theorem senders_sender (at_i : s.senders[i]? = some pc) :
    SendersStep s (.sender i) (s.senderStep i pc) := by
  have act : pc = .idle ∨ (.sender i : Act T) = .sender i := .inr rfl
  cases pc with
  | gone => exact .same rfl rfl
  | idle => exact .same rfl rfl
  | sending item =>
    cases closed : s.closed with
    | true => exact .moved i _ .idle at_i (.refuse item closed) act (by simp [senderStep, closed]) rfl
    | false =>
      exact .moved i _ (.pushing item) at_i (.enter item closed) act
        (by simp [senderStep, closed]) rfl
  | pushing item => exact .moved i _ _ at_i (.push item _) act rfl rfl
  | pushed evicted =>
    refine .moved i _ _ at_i (.notify evicted) act (by simp [senderStep]) ?_
    rcases s.notifyOne_cases with ⟨-, h⟩ | ⟨-, h⟩ <;> rw [senderStep, h] <;> rfl
  | counting evicted => exact .moved i _ _ at_i (.count evicted) act rfl rfl
  | checking item =>
    cases closed : s.closed with
    | true =>
      exact .moved i _ .idle at_i (.refuseLossless item closed) act
        (by simp [senderStep, closed]) rfl
    | false =>
      exact .moved i _ (.subscribing item) at_i (.check item closed) act
        (by simp [senderStep, closed]) rfl
  | subscribing item => exact .moved i _ _ at_i (.subscribe item) act rfl rfl
  | measuring item woken =>
    by_cases room : s.queue.length < s.capacity
    · exact .moved i _ (.sending item) at_i (.room item woken) act (by simp [senderStep, room]) rfl
    · exact .moved i _ (.waiting item woken) at_i (.full item woken (Nat.le_of_not_lt room)) act
        (by simp [senderStep, room]) rfl
  | waiting item woken =>
    cases woken with
    | true => exact .moved i _ _ at_i (.wake item) act rfl rfl
    | false => exact .same rfl rfl
  | closing => exact .moved i _ _ at_i .closed act rfl rfl
  | dropping => exact .moved i _ _ at_i .store act rfl rfl
  | dropped => exact .moved i _ _ at_i .dropped act rfl rfl

theorem senders_take (empty : ReceiverPc T) : (s.take empty).senders = s.senders ∧
    (s.take empty).senderCount = s.senderCount ∧ (s.take empty).closed = s.closed := by
  rcases s.take_cases empty with ⟨-, h⟩ | ⟨item, rest, -, h⟩ <;> rw [h] <;> exact ⟨rfl, rfl, rfl⟩

theorem senders_receiver : SendersStep s a (s.receiverStep rc) := by
  cases rc with
  | popping => exact .same (senders_take _).1 (senders_take _).2.1
  | repopping woken => exact .same (senders_take _).1 (senders_take _).2.1
  | lastPop => exact .same (senders_take .idle).1 (senders_take .idle).2.1
  | awaiting woken =>
    rw [receiverStep]
    split <;> exact .same rfl rfl
  | parked woken => cases woken <;> exact .same rfl rfl
  | popped item => exact .woken rfl rfl
  | _ => exact .same rfl rfl

theorem senders_step (s : Shared T) (a : Act T) : SendersStep s a (s.step a) := by
  cases a with
  | call i op =>
    rw [step]
    split
    · rename_i holder
      exact senders_begin holder op
    · exact .same rfl rfl
  | sender i =>
    rw [step]
    split
    · rename_i pc at_i
      exact senders_sender at_i
    · exact .same rfl rfl
  | recv =>
    rw [step]
    split <;> exact .same rfl rfl
  | receiver => exact senders_receiver
  | tryRecv =>
    rw [step]
    split <;> exact .same rfl rfl
  | tryNotify =>
    rw [step]
    split
    · exact .same rfl rfl
    · exact .woken rfl rfl

theorem closed_sender (other : pc ≠ .dropping) : (s.senderStep i pc).closed = s.closed := by
  cases pc with
  | dropping => exact False.elim (other rfl)
  | pushed evicted => simp [senderStep]
  | waiting item woken => cases woken <;> rfl
  | _ => rfl

theorem closed_receiver : (s.receiverStep rc).closed = s.closed := by
  cases rc with
  | popping => exact (senders_take _).2.2
  | repopping woken => exact (senders_take _).2.2
  | lastPop => exact (senders_take .idle).2.2
  | awaiting woken =>
    rw [receiverStep]
    split <;> rfl
  | parked woken => cases woken <;> rfl
  | _ => rfl

/-- A sender that no notification moves stays until its own step. -/
theorem stays_or_steps (a : Act T) (mem : pc ∈ s.senders) (steady : pc.woken = pc)
    (busy : pc ≠ .idle) :
    pc ∈ (s.step a).senders ∨ ∃ i, a = .sender i ∧ s.senders[i]? = some pc := by
  cases s.senders_step a with
  | same senders => exact .inl (senders ▸ mem)
  | cloned i holder senders =>
    rw [senders]
    exact .inl (List.mem_append_left _ mem)
  | woken senders =>
    rw [senders]
    exact .inl (List.mem_map.mpr ⟨pc, mem, steady⟩)
  | moved i old new at_i edge act senders =>
    by_cases own : pc = old
    · subst own
      exact .inr ⟨i, act.resolve_left busy, at_i⟩
    · rw [senders]
      exact .inl (mem_moved at_i mem own)

/-- How another party moves the receiver: a notification or a call. -/
inductive ReceiverMove (s t : Shared T) : Prop
  | same (receiver : t.receiver = s.receiver)
  | woken (receiver : t.receiver = s.receiver.woken)
  | called (idle : s.receiver = .idle) (receiver : t.receiver = .popping)

theorem receiver_notifyOne : ReceiverMove s s.notifyOne := by
  rcases s.notifyOne_cases with ⟨asleep, h⟩ | ⟨-, h⟩
  · exact .woken (by rw [h, asleep]; rfl)
  · exact .same (by rw [h])

theorem receiver_sender : ReceiverMove s (s.senderStep i pc) := by
  cases pc with
  | pushed evicted =>
    cases s.receiver_notifyOne with
    | same receiver => exact .same receiver
    | woken receiver => exact .woken receiver
    | called idle receiver => exact .called idle receiver
  | waiting item woken => cases woken <;> exact .same rfl
  | closing => exact .woken rfl
  | dropped => exact .woken rfl
  | _ => exact .same rfl

theorem receiver_step (s : Shared T) (other : a ≠ .receiver) : ReceiverMove s (s.step a) := by
  cases a with
  | receiver => exact False.elim (other rfl)
  | call i op =>
    rw [step]
    split
    · cases op <;> exact .same rfl
    · exact .same rfl
  | sender i =>
    rw [step]
    split
    · exact receiver_sender
    · exact .same rfl
  | recv =>
    rw [step]
    split
    · rename_i idle
      exact .called idle rfl
    · exact .same rfl
  | tryRecv =>
    rw [step]
    split <;> exact .same rfl
  | tryNotify =>
    rw [step]
    split <;> exact .same rfl

end Shared

end ChannelSteps
